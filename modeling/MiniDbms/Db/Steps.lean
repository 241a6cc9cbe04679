import MiniDbms.Db.Insert
import MiniDbms.Foundation.RwLock

/-! # The calls in small steps

What a thread does inside the lock, one access to the shared state at a time. What a
call reads and writes before the next step is all that is left of it, so a step of
another thread may come between any two. Before taking the lock and after releasing
it a call does not touch the store.

Run by itself, the steps do what the call does (`MiniDbms.Db.call_completes`).
-/

namespace MiniDbms.Db

open Foundation Util Bptree

/-- The arguments of `db_insert_internal`. -/
structure Insertion where
  hasId : Bool
  id : Int32
  name : CString
  age : Int32
  env : Environment

/-- How far `db_insert_internal` has got, with its local variables. -/
inductive InsertPhase where
  | validate
  | checkDuplicate
  | reserve
  | build (heap : Heap)
  | appendLine (record : Record) (recordIndex : Nat) (heap : Heap)
  | store (record : Record) (recordIndex : Nat) (heap : Heap)
  | increment (record : Record) (recordIndex : Nat) (heap : Heap)
  | advance (record : Record) (recordIndex : Nat) (heap : Heap)
  | insertIndex (record : Record) (recordIndex : Nat) (heap : Heap)
  | serialize (record : Record) (heap : Heap)
  | done (result : DbResult) (heap : Heap)

/-- One step of `db_insert_internal`. -/
def insertStep (insertion : Insertion) : InsertPhase → Store → InsertPhase × Store
  | .validate, store =>
      if (insertion.hasId && decide (insertion.id ≤ 0)) || decide (insertion.age < 0) ||
          !nameIsValid insertion.name.bytes then
        (.done (makeErrorResult (ascii "invalid id, name, or age")) insertion.env.heap, store)
      else (.checkDuplicate, store)
  | .checkDuplicate, store =>
      if insertion.hasId && (bptreeSearch store.db.index insertion.id).isSome then
        (.done (makeErrorResult (ascii "duplicate id")) insertion.env.heap, store)
      else (.reserve, store)
  | .reserve, store =>
      match dbReserveRecords store.db (store.db.count + 1) insertion.env.heap with
      | (.error (), heap) => (.done (makeErrorResult (ascii "out of memory")) heap, store)
      | (.ok db, heap) => (.build heap, { store with db := db })
  | .build heap, store =>
      (.appendLine
        (insertedRecord store.db insertion.hasId insertion.id insertion.name insertion.age)
        store.db.count heap, store)
  | .appendLine record recordIndex heap, store =>
      if insertion.env.openFails then
        (.done (makeErrorResult (ascii "failed to open data file for append")) heap, store)
      else
        match insertion.env.appendFails with
        | some written =>
            (.done (makeErrorResult (ascii "failed to append data file")) heap,
              { store with file := store.file ++ (recordLine record).take written })
        | none =>
            (.store record recordIndex heap, { store with file := store.file ++ recordLine record })
  | .store record recordIndex heap, store =>
      (.increment record recordIndex heap,
        { store with db := storeRecord store.db recordIndex record })
  | .increment record recordIndex heap, store =>
      (.advance record recordIndex heap, { store with db := incrementCount store.db })
  | .advance record recordIndex heap, store =>
      (.insertIndex record recordIndex heap,
        { store with db := advanceNextId store.db record.id })
  | .insertIndex record recordIndex heap, store =>
      match bptreeInsert store.db.index record.id recordIndex heap with
      | (false, index, heap) =>
          (.done (makeErrorResult (ascii "failed to update B+ tree index")) heap,
            { store with db := setIndex store.db index })
      | (true, index, heap) =>
          (.serialize record heap, { store with db := setIndex store.db index })
  | .serialize record heap, store =>
      let outcome := answerInsert record store heap
      (.done outcome.result outcome.heap, store)
  | .done result heap, store => (.done result heap, store)

/-- The arguments of `db_select_projected`, with a projection that names a column. -/
structure Query where
  filter : DbFilter
  projection : DbProjection
  env : Environment

/-- How far `db_select_projected` has got, with its local variables. -/
inductive SelectPhase where
  | openArray
  | seek (builder : JsonBuilder) (heap : Heap)
  | fetch (recordIndex : Option Nat) (builder : JsonBuilder) (heap : Heap)
  | scan (position : Nat) (builder : JsonBuilder) (needComma : Bool) (matched : Nat) (heap : Heap)
  | closeArray (builder : JsonBuilder) (matched : Nat) (heap : Heap)
  | done (result : DbResult) (heap : Heap)

/-- Go on with what was built, or report the error. -/
def proceed {α : Type} (built : Except (List UInt8) α × Heap) (next : α → Heap → SelectPhase) :
    SelectPhase :=
  match built with
  | (.error message, heap) => .done (makeErrorResult message) heap
  | (.ok a, heap) => next a heap

/-- One row of the scan. -/
def appendScannedRow (record : Record) (projection : DbProjection) (builder : JsonBuilder)
    (needComma : Bool) : Attempt (List UInt8) JsonBuilder := do
  let builder ← appendRowSeparator builder needComma
  (appendRecordJson record projection builder).orError (ascii "failed to serialize select row")

/-- One step of `db_select_projected`. -/
def selectStep (query : Query) : SelectPhase → DbEngine → SelectPhase
  | .openArray, _ =>
      let opening := Attempt.orError (do
        let builder ← jsonBuilderInit
        jsonBuilderAppend builder (ascii "[")) (ascii "failed to serialize select result")
      proceed (opening query.env.heap) fun builder heap =>
        if query.filter.type = .id then .seek builder heap else .scan 0 builder false 0 heap
  | .seek builder heap, db => .fetch (bptreeSearch db.index query.filter.id) builder heap
  | .fetch recordIndex builder heap, db =>
      match recordIndex.bind fun recordIndex => db.rows[recordIndex]? with
      | none => .closeArray builder 0 heap
      | some record =>
          proceed
            ((appendRecordJson record query.projection builder).orError
              (ascii "failed to serialize indexed row") heap)
            fun builder heap => .closeArray builder 1 heap
  | .scan position builder needComma matched heap, db =>
      match db.rows[position]? with
      | none => .closeArray builder matched heap
      | some record =>
          if query.filter.includes record then
            proceed (appendScannedRow record query.projection builder needComma heap)
              fun builder heap => .scan (position + 1) builder true (matched + 1) heap
          else .scan (position + 1) builder needComma matched heap
  | .closeArray builder matched heap, _ =>
      proceed ((jsonBuilderAppend builder (ascii "]")).orError
          (ascii "failed to finalize select result") heap)
        fun builder heap =>
          .done
            { ok := true
              rowsJson := some builder.data
              message := selectedMessage matched
              indexUsed := query.filter.type = .id } heap
  | .done result heap, _ => .done result heap

/-- A call inside the lock. -/
inductive Task where
  | insert (insertion : Insertion) (phase : InsertPhase)
  | select (query : Query) (phase : SelectPhase)

/-- A call that has just taken the lock. -/
def Call.task (call : Call) (env : Environment) : Task :=
  match call with
  | .insert name age =>
      .insert { hasId := false, id := 0, name := name, age := age, env := env } .validate
  | .insertWithId id name age =>
      .insert { hasId := true, id := id, name := name, age := age, env := env } .validate
  | .select filter projection =>
      .select { filter := filter, projection := projection.orAll, env := env } .openArray

def Task.step : Task → Store → Task × Store
  | .insert insertion phase, store =>
      let (phase, store) := insertStep insertion phase store
      (.insert insertion phase, store)
  | .select query phase, store => (.select query (selectStep query phase store.db), store)

/-- The result of a call that is about to release the lock, and its heap. -/
def Task.result : Task → Option (DbResult × Heap)
  | .insert _ (.done result heap) => some (result, heap)
  | .select _ (.done result heap) => some (result, heap)
  | _ => none

/-- Inserts take the lock for writing. -/
def Task.exclusive : Task → Bool
  | .insert _ _ => true
  | .select _ _ => false

/-- The calls of `db.c` as operations under its lock. -/
def lockProtocol : Protocol (Call × Environment) Task Store (DbResult × Heap) where
  start call := call.1.task call.2
  step := Task.step
  result := Task.result
  exclusive := Task.exclusive
  keeps := by
    intro here store
    cases here <;> rfl
  reads := by
    intro here store reads
    cases here with
    | insert insertion phase => cases reads
    | select query phase => rfl

section Alone

variable {insertion : Insertion} {query : Query} {store : Store}

/-- The steps from here on end in this outcome. -/
def InsertEnds (insertion : Insertion) (phase : InsertPhase) (store : Store)
    (outcome : Outcome) : Prop :=
  lockProtocol.Reaches (.insert insertion phase, store)
    (.insert insertion (.done outcome.result outcome.heap), outcome.store)

theorem InsertEnds.next {phase : InsertPhase} {outcome : Outcome}
    (unfinished : Task.result (.insert insertion phase) = none)
    (rest : InsertEnds insertion (insertStep insertion phase store).1
      (insertStep insertion phase store).2 outcome) : InsertEnds insertion phase store outcome :=
  .head unfinished rest

theorem InsertEnds.done (result : DbResult) (heap : Heap) :
    InsertEnds insertion (.done result heap) store
      { result := result, store := store, heap := heap } :=
  .refl _

/-- The last steps of an insertion make its answer. -/
theorem answerInsert_ends (record : Record) (heap : Heap) :
    InsertEnds insertion (.serialize record heap) store (answerInsert record store heap) := by
  refine .next rfl ?_
  unfold InsertEnds
  rw [answerInsert_store]
  exact .refl _

/-- From the record array to the answer. -/
theorem commitRecord_ends (db : DbEngine) (file : List UInt8) (record : Record) (heap : Heap) :
    InsertEnds insertion (.store record db.count heap) { db := db, file := file }
      (commitRecord db file record heap) := by
  refine .next rfl (.next rfl (.next rfl (.next rfl ?_)))
  unfold commitRecord
  simp only [insertStep]
  rcases bptreeInsert (advanceNextId (incrementCount (storeRecord db db.count record))
    record.id).index record.id db.count heap with ⟨_ | _, index, after⟩
  · exact .done _ _
  · exact answerInsert_ends record after

/-- The steps of an insert do what `db_insert_internal` does. -/
theorem insert_ends (locks : insertion.env.lockFails = false) :
    InsertEnds insertion .validate store
      (dbInsertInternal insertion.hasId insertion.id insertion.name insertion.age insertion.env
        store) := by
  simp only [dbInsertInternal, locks, Bool.false_eq_true, ↓reduceIte]
  refine .next rfl ?_
  simp only [insertStep]
  split
  · exact .done _ _
  · refine .next rfl ?_
    simp only [insertStep]
    split
    · exact .done _ _
    · refine .next rfl ?_
      simp only [insertStep]
      rcases dbReserveRecords store.db (store.db.count + 1) insertion.env.heap with ⟨_ | db, heap⟩
      · exact .done _ _
      · refine .next rfl (.next rfl ?_)
        simp only [insertStep]
        split
        · exact .done _ _
        · cases insertion.env.appendFails with
          | some written => exact .done _ _
          | none => exact commitRecord_ends db _ _ heap

/-- The steps from here on end in this result. -/
def SelectEnds (query : Query) (phase : SelectPhase) (store : Store)
    (outcome : DbResult × Heap) : Prop :=
  lockProtocol.Reaches (.select query phase, store)
    (.select query (.done outcome.1 outcome.2), store)

theorem SelectEnds.next {phase : SelectPhase} {outcome : DbResult × Heap}
    (unfinished : Task.result (.select query phase) = none)
    (rest : SelectEnds query (selectStep query phase store.db) store outcome) :
    SelectEnds query phase store outcome :=
  .head unfinished rest

theorem SelectEnds.done (result : DbResult) (heap : Heap) :
    SelectEnds query (.done result heap) store (result, heap) :=
  .refl _

/-- What `db_select_projected` makes of the rows it has appended. -/
def closeSelect (query : Query) (selected : Except (List UInt8) (JsonBuilder × Nat) × Heap) :
    DbResult × Heap :=
  match selected with
  | (.error message, heap) => (makeErrorResult message, heap)
  | (.ok (builder, matched), heap) =>
      match (jsonBuilderAppend builder (ascii "]")).orError
          (ascii "failed to finalize select result") heap with
      | (.error message, heap) => (makeErrorResult message, heap)
      | (.ok builder, heap) =>
          ({ ok := true
             rowsJson := some builder.data
             message := selectedMessage matched
             indexUsed := query.filter.type = .id }, heap)

/-- The last steps of a `select` close the array. -/
theorem closeArray_ends (builder : JsonBuilder) (matched : Nat) (heap : Heap) :
    SelectEnds query (.closeArray builder matched heap) store
      (closeSelect query (.ok (builder, matched), heap)) := by
  refine .next rfl ?_
  simp only [selectStep, closeSelect]
  rcases (jsonBuilderAppend builder (ascii "]")).orError
    (ascii "failed to finalize select result") heap with ⟨_ | closed, after⟩ <;> exact .done _ _

theorem selectScan_included {filter : DbFilter} {record : Record}
    (included : filter.includes record = true) (projection : DbProjection) (rows : List Record)
    (builder : JsonBuilder) (needComma : Bool) (matched : Nat) :
    selectScan filter projection (record :: rows) builder needComma matched =
      appendScannedRow record projection builder needComma >>= fun builder =>
        selectScan filter projection rows builder true (matched + 1) := by
  rw [selectScan, if_pos included]
  exact (Attempt.bind_assoc _ _ _).symm

/-- The scan goes through the rows that are left. -/
theorem scan_ends (rows : List Record) (position : Nat) (builder : JsonBuilder) (needComma : Bool)
    (matched : Nat) (heap : Heap) (left : store.db.rows.drop position = rows) :
    SelectEnds query (.scan position builder needComma matched heap) store
      (closeSelect query
        (selectScan query.filter query.projection rows builder needComma matched heap)) := by
  induction rows generalizing position builder needComma matched heap with
  | nil =>
      have past : store.db.rows[position]? = none := by
        rw [← List.head?_drop, left]
        rfl
      refine .next rfl ?_
      simp only [selectStep, past]
      exact closeArray_ends builder matched heap
  | cons record rows ih =>
      have here : store.db.rows[position]? = some record := by
        rw [← List.head?_drop, left]
        rfl
      have later : store.db.rows.drop (position + 1) = rows := by
        rw [← List.drop_drop, left]
        rfl
      refine .next rfl ?_
      by_cases included : query.filter.includes record = true
      · simp only [selectStep, here, if_pos included, selectScan_included included,
          Attempt.bind_apply]
        rcases appendScannedRow record query.projection builder needComma heap with
          ⟨_ | appended, after⟩
        · exact .done _ _
        · exact ih (position + 1) appended true (matched + 1) after later
      · simp only [selectStep, here, selectScan, if_neg included]
        exact ih (position + 1) builder needComma matched heap later

/-- The two ways of finding the rows. -/
theorem matching_ends (builder : JsonBuilder) (heap : Heap) :
    SelectEnds query
      (if query.filter.type = .id then .seek builder heap else .scan 0 builder false 0 heap) store
      (closeSelect query (selectMatching store.db query.filter query.projection builder heap)) := by
  unfold selectMatching
  by_cases byId : query.filter.type = .id
  · rw [if_pos byId, if_pos byId]
    refine .next rfl (.next rfl ?_)
    simp only [selectStep, selectIndexed]
    cases (bptreeSearch store.db.index query.filter.id).bind
      fun recordIndex => store.db.rows[recordIndex]? with
    | none => exact closeArray_ends builder 0 heap
    | some record =>
        simp only [Attempt.bind_apply]
        rcases (appendRecordJson record query.projection builder).orError
          (ascii "failed to serialize indexed row") heap with ⟨_ | appended, after⟩
        · exact .done _ _
        · exact closeArray_ends appended 1 after
  · rw [if_neg byId, if_neg byId]
    exact scan_ends _ 0 builder false 0 heap List.drop_zero

/-- The steps of a select do what `db_select_projected` does. -/
theorem select_ends {filter : DbFilter} {projection : DbProjection} {env : Environment}
    (locks : env.lockFails = false) :
    SelectEnds { filter := filter, projection := projection.orAll, env := env } .openArray store
      (dbSelectProjected filter projection env store.db) := by
  simp only [dbSelectProjected, locks, Bool.false_eq_true, ↓reduceIte]
  refine .next rfl ?_
  simp only [selectStep, selectLocked, Attempt.bind_apply]
  rcases Attempt.orError (do
    let builder ← jsonBuilderInit
    jsonBuilderAppend builder (ascii "[")) (ascii "failed to serialize select result")
    env.heap with ⟨_ | opened, heap⟩
  · exact .done _ _
  · have rest := @matching_ends
      { filter := filter, projection := projection.orAll, env := env } store opened heap
    refine Eq.mp (congrArg _ ?_) rest
    simp only [closeSelect]
    rcases selectMatching store.db filter projection.orAll opened heap with
      ⟨_ | ⟨selected, matched⟩, after⟩
    · rfl
    · simp only
      rcases (jsonBuilderAppend selected (ascii "]")).orError
        (ascii "failed to finalize select result") after with ⟨_ | closed, last⟩ <;> rfl

/-- **A call alone in the lock does what it does as one call.** -/
theorem call_completes (call : Call) {env : Environment} (locks : env.lockFails = false)
    (store : Store) :
    lockProtocol.Completes (call, env) store
      ((call.run env store).result, (call.run env store).heap) (call.run env store).store := by
  cases call with
  | insert name age =>
      exact ⟨_, @insert_ends ⟨false, 0, name, age, env⟩ store locks, rfl⟩
  | insertWithId id name age =>
      exact ⟨_, @insert_ends ⟨true, id, name, age, env⟩ store locks, rfl⟩
  | select filter projection => exact ⟨_, select_ends locks, rfl⟩

end Alone

end MiniDbms.Db
