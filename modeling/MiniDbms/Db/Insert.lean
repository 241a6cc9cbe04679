import MiniDbms.Db.Coherence

/-! # What an insert can do

`MiniDbms.Db.dbInsertInternal_outcome` lists, for any surroundings, the ways an
insert comes out: it leaves the rows and the file alone, it leaves part of a line
in the file, or the line is in the file and the record among the rows. Everything
later that is about inserts is read off these cases.
-/

namespace MiniDbms.Db

open Foundation Util Bptree

/-- The checks an insert makes before it touches anything. -/
structure Accepts (db : DbEngine) (hasId : Bool) (id : Int32) (name : CString) (age : Int32) :
    Prop where
  idPos : hasId = true → 0 < id
  ageNonneg : 0 ≤ age
  nameValid : nameIsValid name.bytes = true
  absent : hasId = true → bptreeSearch db.index id = none

instance (db : DbEngine) (hasId : Bool) (id : Int32) (name : CString) (age : Int32) :
    Decidable (Accepts db hasId id name age) :=
  decidable_of_iff
    ((hasId = true → 0 < id) ∧ 0 ≤ age ∧ nameIsValid name.bytes = true ∧
      (hasId = true → bptreeSearch db.index id = none))
    ⟨fun all => ⟨all.1, all.2.1, all.2.2.1, all.2.2.2⟩,
      fun accepts => ⟨accepts.idPos, accepts.ageNonneg, accepts.nameValid, accepts.absent⟩⟩

/-- The engine once a record was appended to the file, before its id is indexed. -/
def committed (db : DbEngine) (record : Record) : DbEngine :=
  advanceNextId (incrementCount (storeRecord db db.count record)) record.id

/-- The errors of an insert that stopped before its append. -/
def earlyErrors : List (List UInt8) :=
  [ascii "failed to acquire write lock", ascii "invalid id, name, or age", ascii "duplicate id",
    ascii "out of memory", ascii "failed to open data file for append"]

/-- How an insert may come out. -/
inductive InsertOutcome (hasId : Bool) (id : Int32) (name : CString) (age : Int32)
    (env : Environment) (store : Store) : Outcome → Prop where
  /-- Refused, or stopped before the append. -/
  | unchanged (message : List UInt8) (capacity : Nat) (heap : Heap)
      (early : message ∈ earlyErrors) :
      InsertOutcome hasId id name age env store
        { result := makeErrorResult message
          store := { db := setCapacity store.db capacity, file := store.file }
          heap := heap }
  /-- The append failed after some bytes of the line. -/
  | torn (capacity : Nat) (heap : Heap) (written : Nat)
      (accepts : Accepts store.db hasId id name age) (fails : env.appendFails = some written) :
      InsertOutcome hasId id name age env store
        { result := makeErrorResult (ascii "failed to append data file")
          store :=
            { db := setCapacity store.db capacity
              file := store.file ++
                (recordLine (insertedRecord store.db hasId id name age)).take written }
          heap := heap }
  /-- The line was appended. -/
  | appended (capacity : Nat) (heap : Heap) (accepts : Accepts store.db hasId id name age)
      (succeeds : env.appendFails = none)
      (reserved : dbReserveRecords store.db (store.db.count + 1) env.heap =
        (.ok (setCapacity store.db capacity), heap)) :
      InsertOutcome hasId id name age env store
        (commitRecord (setCapacity store.db capacity)
          (store.file ++ recordLine (insertedRecord store.db hasId id name age))
          (insertedRecord store.db hasId id name age) heap)

/-- `next_id` never goes back. -/
theorem le_advancedNextId (nextId id : Int32) : nextId ≤ advancedNextId nextId id := by
  unfold advancedNextId
  split
  · next both => exact both.1.trans (lt_add_one_of_lt_intMax both.2).le
  · exact le_refl nextId

/-- The counter is above every id it has seen, `INT_MAX` excepted. -/
theorem lt_advancedNextId (nextId id : Int32) : id < advancedNextId nextId id ∨ id = intMax := by
  unfold advancedNextId
  split
  · next both => exact .inl (lt_add_one_of_lt_intMax both.2)
  · next without =>
      rcases lt_or_ge id nextId with smaller | reached
      · exact .inl smaller
      · exact .inr (le_antisymm (le_intMax id) (not_lt.mp fun below => without ⟨reached, below⟩))

section Cases

variable {hasId : Bool} {id : Int32} {name : CString} {age : Int32} {env : Environment}
  {store : Store}

/-- What the checks let through is accepted. -/
theorem accepts_of_checks {db : DbEngine}
    (valid : ((hasId && decide (id ≤ 0)) || decide (age < 0) || !nameIsValid name.bytes) = false)
    (absent : (hasId && (bptreeSearch db.index id).isSome) = false) :
    Accepts db hasId id name age := by
  simp only [Bool.or_eq_false_iff, Bool.and_eq_false_imp, decide_eq_false_iff_not, not_le, not_lt,
    Bool.not_eq_false'] at valid absent
  exact
    { idPos := valid.1.1
      ageNonneg := valid.1.2
      nameValid := valid.2
      absent := fun explicit => by simpa using absent explicit }

/-- Every insertion has one of the outcomes. -/
theorem dbInsertInternal_outcome (hasId : Bool) (id : Int32) (name : CString) (age : Int32)
    (env : Environment) (store : Store) :
    InsertOutcome hasId id name age env store (dbInsertInternal hasId id name age env store) := by
  have refused : ∀ message heap, message ∈ earlyErrors → InsertOutcome hasId id name age env store
      { result := makeErrorResult message, store := store, heap := heap } :=
    fun message heap early => .unchanged message store.db.capacity heap early
  simp only [dbInsertInternal]
  split
  · exact refused _ _ (by decide)
  · split
    · exact refused _ _ (by decide)
    · next valid =>
        split
        · exact refused _ _ (by decide)
        · next absent =>
            have accepts := accepts_of_checks (Bool.eq_false_iff.mpr valid)
              (Bool.eq_false_iff.mpr absent)
            have reserved := yields_reserveRecords store.db (store.db.count + 1) env.heap
            rcases ran : dbReserveRecords store.db (store.db.count + 1) env.heap with
              ⟨_ | db, heap⟩ <;> simp only [ran] at reserved ⊢
            · exact refused _ _ (by decide)
            · obtain ⟨_, capacity, rfl⟩ := reserved
              split
              · exact .unchanged _ capacity heap (by decide)
              · cases append : env.appendFails with
                | some written => exact .torn capacity heap written accepts append
                | none => exact .appended capacity heap accepts append ran

end Cases

section Commit

variable {db : DbEngine}

/-- The record is the last row. -/
theorem committed_rows (db : DbEngine) (record : Record) :
    (committed db record).rows = db.rows ++ [record] :=
  rows_storeRecord db record

theorem Coherent.commit (coherent : Coherent db) (record : Record) {index : BPlusTree}
    (represents : Represents index
      (upsert record.id db.count (ofWrites (positions db.records)))) :
    Coherent (setIndex (committed db record) index) :=
  coherent.extend record _ (coherent.storeRecord_records record) rfl represents

/-- What follows the append, by what the index returns. -/
theorem commitRecord_eq (db : DbEngine) (file : List UInt8) (record : Record) (heap : Heap) :
    commitRecord db file record heap =
      match bptreeInsert db.index record.id db.count heap with
      | (false, index, heap) =>
          { result := makeErrorResult (ascii "failed to update B+ tree index")
            store := { db := setIndex (committed db record) index, file := file }
            heap := heap }
      | (true, index, heap) =>
          answerInsert record { db := setIndex (committed db record) index, file := file } heap :=
  rfl

@[simp] theorem answerInsert_store (record : Record) (store : Store) (heap : Heap) :
    (answerInsert record store heap).store = store := by
  unfold answerInsert
  rcases serializeInsert record heap with ⟨_ | json, after⟩ <;> rfl

/-- Whatever happens after the append, the record is among the rows and the line
in the file. -/
theorem commitRecord_store (db : DbEngine) (file : List UInt8) (record : Record) (heap : Heap) :
    (commitRecord db file record heap).store =
      { db := setIndex (committed db record) (bptreeInsert db.index record.id db.count heap).2.1
        file := file } := by
  rw [commitRecord_eq]
  rcases bptreeInsert db.index record.id db.count heap with ⟨_ | _, index, after⟩
  · rfl
  · exact answerInsert_store _ _ _

end Commit

/-- A record that an insert builds from accepted arguments can be read back, as long
as the counter is positive. -/
theorem Accepts.recordIsValid {db : DbEngine} {hasId : Bool} {id : Int32} {name : CString}
    {age : Int32} (accepts : Accepts db hasId id name age) (positive : 0 < db.nextId) :
    recordIsValid (insertedRecord db hasId id name age) = true := by
  obtain ⟨nonempty, noComma, noFeed, noReturn⟩ := (nameIsValid_iff _).mp accepts.nameValid
  apply (recordIsValid_iff _).mpr
  refine ⟨?_, accepts.ageNonneg, (nameIsValid_iff _).mpr ⟨?_, ?_, ?_, ?_⟩⟩
  · cases explicit : hasId with
    | false => exact positive
    | true => exact accepts.idPos explicit
  · change name.bytes.take dbNameLimit ≠ []
    rw [ne_eq, List.take_eq_nil_iff]
    exact not_or.mpr ⟨by decide, nonempty⟩
  · exact fun member => noComma (List.mem_of_mem_take member)
  · exact fun member => noFeed (List.mem_of_mem_take member)
  · exact fun member => noReturn (List.mem_of_mem_take member)

/-- The call left the rows, the counter and the file alone. -/
structure Kept (store next : Store) : Prop where
  file : next.file = store.file
  rows : next.db.rows = store.db.rows
  nextId : next.db.nextId = store.db.nextId
  dataPath : next.db.dataPath = store.db.dataPath

/-- The call added a row, and its line to the file. -/
structure Grown (store : Store) (record : Record) (next : Store) : Prop where
  file : next.file = store.file ++ recordLine record
  rows : next.db.rows = store.db.rows ++ [record]
  nextId : next.db.nextId = advancedNextId store.db.nextId record.id
  dataPath : next.db.dataPath = store.db.dataPath
  valid : 0 < store.db.nextId → recordIsValid record = true

/-- The call left part of the line of a record in the file, and nothing else. -/
structure Torn (store : Store) (record : Record) (written : Nat) (next : Store) : Prop where
  file : next.file = store.file ++ (recordLine record).take written
  rows : next.db.rows = store.db.rows
  nextId : next.db.nextId = store.db.nextId
  dataPath : next.db.dataPath = store.db.dataPath
  valid : 0 < store.db.nextId → recordIsValid record = true

theorem Kept.refl (store : Store) : Kept store store := ⟨rfl, rfl, rfl, rfl⟩

/-- Only an insert that reached the end of its line answers ok. -/
theorem InsertOutcome.left {hasId : Bool} {id : Int32} {name : CString} {age : Int32}
    {env : Environment} {store : Store} {outcome : Outcome}
    (came : InsertOutcome hasId id name age env store outcome) :
    (outcome.result.ok = false ∧ Kept store outcome.store) ∨
      (outcome.result.ok = false ∧ Accepts store.db hasId id name age ∧
        ∃ written, env.appendFails = some written ∧
        Torn store (insertedRecord store.db hasId id name age) written outcome.store) ∨
      (env.appendFails = none ∧
        Grown store (insertedRecord store.db hasId id name age) outcome.store) := by
  cases came with
  | unchanged message capacity heap early => exact .inl ⟨rfl, rfl, rfl, rfl, rfl⟩
  | torn capacity heap written accepts fails =>
      exact .inr (.inl ⟨rfl, accepts, written, fails, rfl, rfl, rfl, rfl, accepts.recordIsValid⟩)
  | appended capacity heap accepts succeeds =>
      refine .inr (.inr ⟨succeeds, ?_⟩)
      rw [commitRecord_store]
      exact ⟨rfl, committed_rows _ _, rfl, rfl, accepts.recordIsValid⟩

/-- An insertion that succeeds has added its record. -/
theorem InsertOutcome.grown_of_ok {hasId : Bool} {id : Int32} {name : CString} {age : Int32}
    {env : Environment} {store : Store} {outcome : Outcome}
    (came : InsertOutcome hasId id name age env store outcome)
    (ok : outcome.result.ok = true) :
    Grown store (insertedRecord store.db hasId id name age) outcome.store := by
  rcases came.left with ⟨failed, _⟩ | ⟨failed, _⟩ | ⟨_, grown⟩
  · cases failed.symm.trans ok
  · cases failed.symm.trans ok
  · exact grown

/-- What is left of a call whose append does not fail. -/
theorem Call.kept_or_grown (call : Call) {env : Environment} (whole : env.appendFails = none)
    (store : Store) :
    Kept store (call.run env store).store ∨
      ∃ record, Grown store record (call.run env store).store := by
  have inserts : ∀ hasId id name age,
      Kept store (dbInsertInternal hasId id name age env store).store ∨
        ∃ record, Grown store record (dbInsertInternal hasId id name age env store).store := by
    intro hasId id name age
    rcases (dbInsertInternal_outcome hasId id name age env store).left with
      ⟨_, kept⟩ | ⟨_, _, written, fails, _⟩ | ⟨_, grown⟩
    · exact .inl kept
    · rw [whole] at fails
      cases fails
    · exact .inr ⟨_, grown⟩
  cases call with
  | insert name age => exact inserts _ _ _ _
  | insertWithId id name age => exact inserts _ _ _ _
  | select filter projection => exact .inl (Kept.refl store)

end MiniDbms.Db
