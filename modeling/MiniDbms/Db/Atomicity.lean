import MiniDbms.Db.Faults

/-! # Inserts that answer an error

The append of the line is the point of no return. An error raised at or before it
leaves everything a later call can observe as it was; an error raised after it finds
the row stored and its line written, and nothing is taken back. The index is then what
`bptree_insert` left, which has indexed the row if it was refused no node
(`MiniDbms.Db.insert_error`).
-/

namespace MiniDbms.Db

open Foundation Util Bptree

/-- Nothing that a later call or a restart can observe has changed. -/
structure Untouched (store next : Store) : Prop where
  file : next.file = store.file
  rows : next.db.rows = store.db.rows
  count : next.db.count = store.db.count
  nextId : next.db.nextId = store.db.nextId
  search : ∀ key, bptreeSearch next.db.index key = bptreeSearch store.db.index key

/-- The record is a row, its line is in the file, and the counter has taken note. -/
structure RowCommitted (store : Store) (record : Record) (next : Store) : Prop where
  file : next.file = store.file ++ recordLine record
  rows : next.db.rows = store.db.rows ++ [record]
  count : next.db.count = store.db.count + 1
  nextId : next.db.nextId = advancedNextId store.db.nextId record.id

/-- An engine that `db_init` opened on some file, after any calls, whatever was refused to it. -/
inductive Reachable : Store → Prop where
  | opened {dataPath : CString} {file : List UInt8} {env : Environment} {db : DbEngine}
      (loaded : (dbInit dataPath file env).1 = .ok db) : Reachable { db := db, file := file }
  | call {store : Store} (before : Reachable store) (call : Call) (env : Environment) :
      Reachable (call.run env store).store

/-- The index of such an engine is a search tree of positions of the rows. -/
theorem Reachable.indexed {store : Store} (reachable : Reachable store) : Indexed store.db := by
  have follows : ∃ ledger, Follows store ledger := by
    induction reachable with
    | opened loaded =>
        obtain ⟨records, _, follows⟩ := follows_opened loaded
        exact ⟨_, follows⟩
    | call before call env ih =>
        obtain ⟨ledger, follows⟩ := ih
        obtain ⟨next, _, kept⟩ := @Follows.call False False _ ledger follows call env
          (fun impossible => impossible.elim) fun impossible => impossible.elim
        exact ⟨next, kept⟩
  obtain ⟨ledger, follows⟩ := follows
  exact follows.indexed

/-- The only error of the end of an insert is that its answer could not be built. -/
theorem answerInsert_error {record : Record} {store : Store} {heap : Heap}
    (failed : (answerInsert record store heap).result.ok = false) :
    (answerInsert record store heap).result.message =
      ascii "failed to serialize insert result" := by
  unfold answerInsert at failed ⊢
  rcases ran : serializeInsert record heap with ⟨_ | json, after⟩ <;> rw [ran] at failed
  · rfl
  · cases failed

/-- How an insert fails after its append: the message tells what `bptree_insert` returned. -/
theorem commitRecord_error {db : DbEngine} {file : List UInt8} {record : Record} {heap : Heap}
    (failed : (commitRecord db file record heap).result.ok = false) :
    ((commitRecord db file record heap).result.message = ascii "failed to update B+ tree index" ∧
        (bptreeInsert db.index record.id db.count heap).1 = false) ∨
      ((commitRecord db file record heap).result.message =
          ascii "failed to serialize insert result" ∧
        (bptreeInsert db.index record.id db.count heap).1 = true) := by
  rw [commitRecord_eq] at failed ⊢
  rcases ran : bptreeInsert db.index record.id db.count heap with ⟨_ | _, index, after⟩ <;>
    rw [ran] at failed
  · exact .inl ⟨rfl, rfl⟩
  · exact .inr ⟨answerInsert_error failed, rfl⟩

/-- **Errors and the append.** Whatever fails, as long as a failing append writes
nothing: an error at or before the append leaves everything untouched, and one after
it leaves the row committed. The index is then what `bptree_insert` left, with the
allocator that `db_reserve_records` left; the error tells whether it returned 1. In
every engine that can be reached, if it was refused no node, a search for the id
finds the new row, and all other searches answer as before. -/
theorem insert_error {hasId : Bool} {id : Int32} {name : CString} {age : Int32}
    {env : Environment} {store : Store}
    (nothing : env.appendFails = none ∨ env.appendFails = some 0)
    (failed : (dbInsertInternal hasId id name age env store).result.ok = false) :
    let outcome := dbInsertInternal hasId id name age env store
    let record := insertedRecord store.db hasId id name age
    let heap := (dbReserveRecords store.db (store.db.count + 1) env.heap).2
    let inserted := bptreeInsert store.db.index record.id store.db.count heap
    (outcome.result.message ∈ ascii "failed to append data file" :: earlyErrors ∧
        Untouched store outcome.store) ∨
      (RowCommitted store record outcome.store ∧
        outcome.store.db.index = inserted.2.1 ∧
        (outcome.result.message = ascii "failed to update B+ tree index" ∧ inserted.1 = false ∨
          outcome.result.message = ascii "failed to serialize insert result" ∧
            inserted.1 = true) ∧
        (Reachable store → IndexGranted store env record.id → ∀ key,
          bptreeSearch outcome.store.db.index key =
            if key = record.id then some store.db.count else bptreeSearch store.db.index key)) := by
  intro outcome record heap inserted
  have came : InsertOutcome hasId id name age env store outcome :=
    dbInsertInternal_outcome hasId id name age env store
  change outcome.result.ok = false at failed
  clear_value outcome
  cases came with
  | unchanged message capacity heap early =>
      exact .inl ⟨List.mem_cons_of_mem _ early, rfl, rfl, rfl, rfl, fun _ => rfl⟩
  | torn capacity heap written accepts fails =>
      refine .inl ⟨List.mem_cons_self, ?_, rfl, rfl, rfl, fun _ => rfl⟩
      have none : written = 0 := by simpa [fails] using nothing
      rw [none, List.take_zero, List.append_nil]
  | appended capacity after accepts succeeds reserved =>
      have same : heap = after := congrArg Prod.snd reserved
      have error := commitRecord_error failed
      rw [commitRecord_store]
      simp only [inserted, same]
      refine .inr ⟨⟨rfl, committed_rows _ _, rfl, rfl⟩, rfl, error, fun reachable granted => ?_⟩
      have fresh : (bptreeInsert store.db.index record.id store.db.count
          after.fresh).2.2.refused = false := same ▸ granted
      exact reachable.indexed.surviving.search_insert fresh

/-- The buffer for the answer is refused after the row was committed; the row is found. -/
theorem insert_error_after_commit :
    let path := CString.ofBuffer (ascii "users.csv")
    let start : Store := { db := emptyEngine (path.truncate dbPathLimit), file := [] }
    let name := CString.ofBuffer (ascii "ann")
    let env := { Environment.calm with
      heap := { Heap.generous with grants := fun request => request ≠ 2 } }
    let record := insertedRecord start.db true 7 name 30
    let next := (dbInsertWithId 7 name 30 env start).store
    RowCommitted start record next ∧ bptreeSearch next.db.index 7 = some 0 ∧
      bptreeSearch next.db.index 8 = none := by
  intro path start name env record next
  have opened : Reachable start := .opened (show (dbInit path [] .calm).1 = .ok start.db from rfl)
  have granted : IndexGranted start env record.id := by
    unfold IndexGranted
    decide +kernel
  rcases @insert_error true 7 name 30 env start (.inl rfl) (by decide +kernel) with
    ⟨_, untouched⟩ | ⟨committed, _, _, searches⟩
  · exact absurd untouched.count (by decide +kernel)
  · exact ⟨committed, searches opened granted 7, searches opened granted 8⟩

/-- An insert that answers an error has written its line, stored its row and indexed
its id. -/
theorem insert_error_not_atomic :
    let path := CString.ofBuffer (ascii "users.csv")
    let start : Store := { db := emptyEngine (path.truncate dbPathLimit), file := [] }
    let env := { Environment.calm with
      heap := { Heap.generous with grants := fun request => request ≠ 2 } }
    let outcome := dbInsertWithId 7 (CString.ofBuffer (ascii "ann")) 30 env start
    (dbInit path [] .calm).1 = .ok start.db ∧ outcome.result.ok = false ∧
      outcome.result.message = ascii "failed to serialize insert result" ∧
      outcome.store.file = ascii "7,ann,30\n" ∧ outcome.store.db.count = 1 ∧
      outcome.store.db.nextId = 8 ∧ bptreeSearch outcome.store.db.index 7 = some 0 ∧
      bptreeSearch start.db.index 7 = none ∧ ¬Untouched start outcome.store := by
  refine ⟨rfl, ?_, ?_, ?_, ?_, ?_, ?_, ?_, fun untouched => ?_⟩
  any_goals decide +kernel
  exact absurd untouched.count (by decide +kernel)

end MiniDbms.Db
