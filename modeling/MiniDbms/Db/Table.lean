import MiniDbms.Db.Insert
import MiniDbms.Foundation.Machine

/-! # The engine is a table

What the engine is for: a list of rows and a counter, without capacity, slots,
index, builder or heap. While the operating system provides what is asked of it, a
coherent engine answers every call as the table does, and keeps to the table's
state (`MiniDbms.Db.engine_step`); so do all its runs
(`MiniDbms.Db.engine_refines_table`).
-/

namespace MiniDbms.Db

open Foundation Util Bptree

structure Table where
  rows : List Record
  nextId : Int32
  deriving DecidableEq

/-- The table an engine stands for. -/
def DbEngine.table (db : DbEngine) : Table := { rows := db.rows, nextId := db.nextId }

@[simp] theorem DbEngine.table_rows (db : DbEngine) : db.table.rows = db.rows := rfl

/-- An engine opened on an empty file stands for the empty table. -/
theorem dbInit_empty {dataPath : CString} {env : Environment} {db : DbEngine} (calm : env.Calm)
    (granted : (dbInit dataPath [] env).2.refused = false)
    (opened : (dbInit dataPath [] env).1 = .ok db) :
    Coherent db ∧ db.table = { rows := [], nextId := 1 } := by
  obtain ⟨_, read, loaded⟩ := dbInit_loaded calm granted opened
  cases read
  exact ⟨loaded.coherent, congrArg₂ Table.mk loaded.rows loaded.nextId⟩

/-- The rows of an array, each after the first preceded by a comma, and all of
them if `needComma`. -/
def rowsJson (columns : List DbColumn) (needComma : Bool) : List Record → List UInt8
  | [] => []
  | record :: rows =>
      (if needComma then ascii "," else []) ++ rowJson columns record ++ rowsJson columns true rows

/-- Rows as a JSON array. -/
def arrayJson (columns : List DbColumn) (rows : List Record) : List UInt8 :=
  ascii "[" ++ rowsJson columns false rows ++ ascii "]"

/-- The rows a filter selects; among rows of one id, the last. -/
def DbFilter.matching (filter : DbFilter) (rows : List Record) : List Record :=
  match filter.type with
  | .all => rows
  | .id => (rows.reverse.find? fun record => record.id = filter.id).toList
  | .name => rows.filter fun record => record.name = filter.name

def insertedResult (record : Record) : DbResult where
  ok := true
  rowsJson := some (arrayJson allColumnsProjection.shown [record])
  message := ascii "inserted 1 row"
  indexUsed := false

def selectedResult (filter : DbFilter) (projection : DbProjection) (rows : List Record) :
    DbResult where
  ok := true
  rowsJson := some (arrayJson projection.orAll.shown (filter.matching rows))
  message := selectedMessage (filter.matching rows).length
  indexUsed := filter.type = .id

namespace Table

def add (table : Table) (record : Record) : Table where
  rows := table.rows ++ [record]
  nextId := advancedNextId table.nextId record.id

/-- The row that an insert adds. -/
def newRecord (table : Table) (hasId : Bool) (id : Int32) (name : CString) (age : Int32) :
    Record where
  id := if hasId then id else table.nextId
  name := name.truncate dbNameLimit
  age := age

/-- An insert, under a given id or under the counter. -/
def insert (table : Table) (hasId : Bool) (id : Int32) (name : CString) (age : Int32) :
    DbResult × Table :=
  if (hasId = true ∧ id ≤ 0) ∨ age < 0 ∨ nameIsValid name.bytes = false then
    (makeErrorResult (ascii "invalid id, name, or age"), table)
  else if hasId = true ∧ id ∈ table.rows.map (·.id) then
    (makeErrorResult (ascii "duplicate id"), table)
  else
    let record := table.newRecord hasId id name age
    (insertedResult record, table.add record)

def answer (table : Table) : Call → DbResult × Table
  | .insert name age => table.insert false 0 name age
  | .insertWithId id name age => table.insert true id name age
  | .select filter projection => (selectedResult filter projection table.rows, table)

/-- The table as a machine. -/
def machine : Machine Table Call DbResult where
  step := answer

end Table

/-- The engine as a machine: every call comes with what the operating system does
to it. -/
def engineMachine : Machine Store (Call × Environment) DbResult where
  step store call :=
    let outcome := call.1.run call.2 store
    (outcome.result, outcome.store)

/-- The operating system provides all that the call asks for. -/
structure Undisturbed (store : Store) (call : Call × Environment) : Prop where
  calm : call.2.Calm
  granted : (call.1.run call.2 store).heap.refused = false

instance (store : Store) (call : Call × Environment) : Decidable (Undisturbed store call) :=
  decidable_of_iff (call.2.Calm ∧ (call.1.run call.2 store).heap.refused = false)
    ⟨fun all => ⟨all.1, all.2⟩, fun undisturbed => ⟨undisturbed.calm, undisturbed.granted⟩⟩

section Serialization

variable {builder : JsonBuilder} {text : List UInt8} {needComma : Bool} {db : DbEngine}

/-- The result of an insertion is the array of its record. -/
theorem yields_serializeInsert (record : Record) :
    Attempt.Yields (serializeInsert record)
      (· = arrayJson allColumnsProjection.shown [record]) := by
  unfold serializeInsert
  refine yields_init.bind fun empty emptyReads => ?_
  refine (yields_append emptyReads (by decide)).bind fun opened openedReads => ?_
  refine (yields_record openedReads allColumnsProjection).bind fun filled filledReads => ?_
  refine (yields_append filledReads (by decide)).bind fun closed closedReads => ?_
  apply Attempt.Yields.pure
  rw [closedReads.1]
  simp only [arrayJson, rowsJson, Bool.false_eq_true, ↓reduceIte, List.nil_append,
    List.append_nil]

/-- The separator between rows is appended where it is needed. -/
theorem yields_rowSeparator (reads : Reads text builder) :
    Attempt.Yields (appendRowSeparator builder needComma)
      (Reads (text ++ if needComma then ascii "," else [])) := by
  unfold appendRowSeparator
  cases needComma with
  | false =>
      apply Attempt.Yields.pure
      simpa using reads
  | true => exact (yields_append reads (by decide)).orError _

/-- The scan appends the rows that the filter includes and counts them. -/
theorem yields_selectScan (filter : DbFilter) (projection : DbProjection) (rows : List Record)
    (matched : Nat) (reads : Reads text builder) :
    Attempt.Yields (selectScan filter projection rows builder needComma matched) fun out =>
      Reads (text ++ rowsJson projection.shown needComma (rows.filter filter.includes)) out.1 ∧
        out.2 = matched + (rows.filter filter.includes).length := by
  induction rows generalizing builder text needComma matched with
  | nil =>
      refine Attempt.Yields.pure ⟨?_, rfl⟩
      simpa only [List.filter_nil, rowsJson, List.append_nil] using reads
  | cons record rows ih =>
      rw [selectScan]
      by_cases included : filter.includes record = true
      · rw [if_pos included, List.filter_cons_of_pos included]
        refine (yields_rowSeparator reads).bind fun next nextReads => ?_
        refine ((yields_record nextReads projection).orError _).bind fun filled filledReads => ?_
        refine (ih (matched + 1) filledReads).mono fun out outReads => ⟨?_, ?_⟩
        · simpa only [rowsJson, List.append_assoc] using outReads.1
        · rw [outReads.2, List.length_cons, Nat.add_right_comm, Nat.add_assoc]
      · rw [if_neg included, List.filter_cons_of_neg included]
        exact ih matched reads

/-- The index gives the row that the filter matches. -/
theorem yields_selectIndexed (coherent : Coherent db) {filter : DbFilter}
    (byId : filter.type = .id) (projection : DbProjection) (reads : Reads text builder) :
    Attempt.Yields (selectIndexed db filter projection builder) fun out =>
      Reads (text ++ rowsJson projection.shown false (filter.matching db.rows)) out.1 ∧
        out.2 = (filter.matching db.rows).length := by
  simp only [selectIndexed, coherent.indexedRow, DbFilter.matching, byId]
  cases db.rows.reverse.find? fun record => record.id = filter.id with
  | none =>
      refine Attempt.Yields.pure ⟨?_, rfl⟩
      simpa only [Option.toList_none, rowsJson, List.append_nil] using reads
  | some record =>
      refine ((yields_record reads projection).orError _).bind fun filled filledReads => ?_
      refine Attempt.Yields.pure ⟨?_, rfl⟩
      simpa only [Option.toList_some, rowsJson, Bool.false_eq_true, ↓reduceIte, List.nil_append,
        List.append_nil] using filledReads

/-- What the scan includes is what the filter matches. -/
theorem filter_includes {filter : DbFilter} (scanned : filter.type ≠ .id) (rows : List Record) :
    rows.filter filter.includes = filter.matching rows := by
  unfold DbFilter.matching
  cases kind : filter.type with
  | all =>
      rw [List.filter_eq_self]
      intro record _
      simp [DbFilter.includes, kind]
  | id => exact absurd kind scanned
  | name =>
      apply List.filter_congr
      intro record _
      simp [DbFilter.includes, kind, BoundedString.ext_bytes_iff]

/-- The rows that the filter matches are put into the array and counted. -/
theorem yields_selectMatching (coherent : Coherent db) (filter : DbFilter)
    (projection : DbProjection) (reads : Reads text builder) :
    Attempt.Yields (selectMatching db filter projection builder) fun out =>
      Reads (text ++ rowsJson projection.shown false (filter.matching db.rows)) out.1 ∧
        out.2 = (filter.matching db.rows).length := by
  unfold selectMatching
  by_cases byId : filter.type = .id
  · rw [if_pos byId]
    exact yields_selectIndexed coherent byId projection reads
  · rw [if_neg byId, ← filter_includes byId]
    simpa only [Nat.zero_add] using yields_selectScan filter projection db.rows 0 reads

/-- The result is the array of the matching rows. -/
theorem yields_selectLocked (coherent : Coherent db) (filter : DbFilter)
    (projection : DbProjection) :
    Attempt.Yields (selectLocked db filter projection) fun out =>
      out = (arrayJson projection.shown (filter.matching db.rows),
        (filter.matching db.rows).length) := by
  unfold selectLocked
  have opening : Attempt.Yields (do
      let builder ← jsonBuilderInit
      jsonBuilderAppend builder (ascii "[")) (Reads (ascii "[")) :=
    yields_init.bind fun empty emptyReads => yields_append emptyReads (by decide)
  refine (opening.orError _).bind fun opened openedReads => ?_
  refine (yields_selectMatching coherent filter projection openedReads).bind
    fun selected selectedReads => ?_
  obtain ⟨selected, matched⟩ := selected
  obtain ⟨selectedReads, rfl⟩ := selectedReads
  refine ((yields_append selectedReads (by decide)).orError _).bind fun closed closedReads => ?_
  apply Attempt.Yields.pure
  rw [closedReads.1]
  rfl

end Serialization

/-- A `select` that is refused nothing answers as the table does. -/
theorem dbSelectProjected_table {db : DbEngine} (coherent : Coherent db) {filter : DbFilter}
    {projection : DbProjection} {env : Environment} (calm : env.Calm)
    (granted : (dbSelectProjected filter projection env db).2.refused = false) :
    (dbSelectProjected filter projection env db).1 = selectedResult filter projection db.rows := by
  unfold dbSelectProjected at granted ⊢
  simp only [calm.lock, Bool.false_eq_true, ↓reduceIte] at granted ⊢
  have spec := yields_selectLocked coherent filter projection.orAll
  rcases ran : selectLocked db filter projection.orAll env.heap with ⟨_ | ⟨json, matched⟩, heap⟩ <;>
    rw [ran] at granted <;>
    obtain ⟨_, _, same, rfl⟩ := spec.result ((congrArg (·.2.refused) ran).trans granted) <;>
    rw [ran] at same <;> cases same
  rfl

/-- An insertion that is refused nothing is answered with its record. -/
theorem answerInsert_granted {record : Record} {store : Store} {heap : Heap}
    (granted : (answerInsert record store heap).heap.refused = false) :
    heap.refused = false ∧ (answerInsert record store heap).result = insertedResult record := by
  have spec := yields_serializeInsert record
  unfold answerInsert at granted ⊢
  rcases ran : serializeInsert record heap with ⟨_ | json, after⟩ <;>
    rw [ran] at granted <;>
    obtain ⟨before, _, same, rfl⟩ := spec.result ((congrArg (·.2.refused) ran).trans granted) <;>
    rw [ran] at same <;> cases same
  exact ⟨before, rfl⟩

/-- A committed record that is refused nothing is answered, and the engine stays coherent. -/
theorem Coherent.commitRecord {db : DbEngine} (coherent : Coherent db) {file : List UInt8}
    {record : Record} {heap : Heap}
    (granted : (commitRecord db file record heap).heap.refused = false) :
    (commitRecord db file record heap).result = insertedResult record ∧
      Coherent (commitRecord db file record heap).store.db := by
  have inserted := @Represents.insert db.index _ coherent.indexed record.id db.count heap
  rw [commitRecord_eq] at granted ⊢
  rcases ran : bptreeInsert db.index record.id db.count heap with ⟨_ | _, index, after⟩ <;>
    rw [ran] at granted inserted
  · obtain ⟨impossible, _⟩ := inserted granted
    cases impossible
  · obtain ⟨before, answered⟩ := answerInsert_granted granted
    refine ⟨answered, ?_⟩
    rw [answerInsert_store]
    exact coherent.commit record (inserted before).2

/-- Whatever became of the append, an engine that was granted its memory stays
coherent, and an insert that answers ok answers with its row. -/
theorem InsertOutcome.answered {hasId : Bool} {id : Int32} {name : CString} {age : Int32}
    {env : Environment} {store : Store} {outcome : Outcome}
    (came : InsertOutcome hasId id name age env store outcome) (coherent : Coherent store.db)
    (granted : outcome.heap.refused = false) :
    Coherent outcome.store.db ∧
      (outcome.result.ok = true →
        outcome.result = insertedResult (insertedRecord store.db hasId id name age)) := by
  cases came with
  | unchanged message capacity heap early => exact ⟨coherent.capacity capacity, nofun⟩
  | torn capacity heap written accepts fails => exact ⟨coherent.capacity capacity, nofun⟩
  | appended capacity heap accepts succeeds =>
      obtain ⟨answered, kept⟩ := (coherent.capacity capacity).commitRecord granted
      exact ⟨kept, fun _ => answered⟩

theorem commitRecord_table (db : DbEngine) (file : List UInt8) (record : Record) (heap : Heap) :
    (commitRecord db file record heap).store.db.table = db.table.add record := by
  rw [commitRecord_store]
  exact congrArg (Table.mk · _) (committed_rows db record)

/-- What the table does with an insert, the engine does with its record array, its
index and its file. -/
theorem dbInsertInternal_table {store : Store} (coherent : Coherent store.db) {hasId : Bool}
    {id : Int32} {name : CString} {age : Int32} {env : Environment} (calm : env.Calm)
    (granted : (dbInsertInternal hasId id name age env store).heap.refused = false) :
    (dbInsertInternal hasId id name age env store).result =
        (store.db.table.insert hasId id name age).1 ∧
      (dbInsertInternal hasId id name age env store).store.db.table =
        (store.db.table.insert hasId id name age).2 ∧
      Coherent (dbInsertInternal hasId id name age env store).store.db := by
  have known : (bptreeSearch store.db.index id).isSome = true ↔
      id ∈ store.db.table.rows.map (·.id) := coherent.search_isSome id
  have reserved := yields_reserveRecords store.db (store.db.count + 1)
  simp only [dbInsertInternal, calm.lock, calm.opens, calm.appends, Bool.false_eq_true, ↓reduceIte,
    Bool.or_eq_true, Bool.and_eq_true, decide_eq_true_eq, Bool.not_eq_true', or_assoc, known,
    Table.insert] at granted ⊢
  by_cases invalid : hasId = true ∧ id ≤ 0 ∨ age < 0 ∨ nameIsValid name.bytes = false
  · rw [if_pos invalid, if_pos invalid]
    exact ⟨rfl, rfl, coherent⟩
  · rw [if_neg invalid] at granted ⊢
    rw [if_neg invalid]
    by_cases duplicate : hasId = true ∧ id ∈ store.db.table.rows.map (·.id)
    · rw [if_pos duplicate, if_pos duplicate]
      exact ⟨rfl, rfl, coherent⟩
    · rw [if_neg duplicate] at granted ⊢
      rw [if_neg duplicate]
      have spec := reserved env.heap
      rcases ran : dbReserveRecords store.db (store.db.count + 1) env.heap with ⟨_ | db, heap⟩ <;>
        rw [ran] at granted spec
      · cases granted.symm.trans spec
      · obtain ⟨_, capacity, rfl⟩ := spec
        obtain ⟨answered, kept⟩ := (coherent.capacity capacity).commitRecord granted
        exact ⟨answered, commitRecord_table _ _ _ _, kept⟩

/-- **One call on a coherent engine is one call on its table.** -/
theorem engine_step {store : Store} (coherent : Coherent store.db) {call : Call × Environment}
    (undisturbed : Undisturbed store call) :
    (engineMachine.step store call).1 = (store.db.table.answer call.1).1 ∧
      (engineMachine.step store call).2.db.table = (store.db.table.answer call.1).2 ∧
      Coherent (engineMachine.step store call).2.db := by
  obtain ⟨call, env⟩ := call
  obtain ⟨calm, granted⟩ := undisturbed
  cases call with
  | insert name age => exact dbInsertInternal_table coherent calm granted
  | insertWithId id name age => exact dbInsertInternal_table coherent calm granted
  | select filter projection =>
      exact ⟨dbSelectProjected_table coherent calm granted, rfl, coherent⟩

/-- An undisturbed run keeps the engine coherent. -/
theorem engine_coherent {store : Store} {calls : List (Call × Environment)}
    (coherent : Coherent store.db) (undisturbed : engineMachine.Meets Undisturbed store calls) :
    Coherent (engineMachine.run store calls).2.db :=
  engineMachine.run_invariant (fun store => Coherent store.db)
    (fun _ _ coherent undisturbed => (engine_step coherent undisturbed).2.2) coherent undisturbed

/-- **The engine refines the table.** An undisturbed run gives the answers of the
table, and ends where the table ends. -/
theorem engine_refines_table {store : Store} {calls : List (Call × Environment)}
    (coherent : Coherent store.db) (undisturbed : engineMachine.Meets Undisturbed store calls) :
    (engineMachine.run store calls).1 = (Table.machine.run store.db.table (calls.map Prod.fst)).1 ∧
      (engineMachine.run store calls).2.db.table =
        (Table.machine.run store.db.table (calls.map Prod.fst)).2 := by
  have simulated := engineMachine.run_simulates Table.machine
    (fun store table => Coherent store.db ∧ store.db.table = table)
    (fun call => some call.1) some
    (by intro store table call _ _ impossible; cases impossible)
    (by
      rintro store _ call _ ⟨coherent, rfl⟩ undisturbed ⟨⟩
      obtain ⟨answered, kept, still⟩ := engine_step coherent undisturbed
      exact ⟨congrArg some answered, still, kept⟩)
    ⟨coherent, rfl⟩ undisturbed
  rw [List.filterMap_some, List.filterMap_eq_map'] at simulated
  exact ⟨simulated.1, simulated.2.2⟩

end MiniDbms.Db
