import MiniDbms.Bptree.Exhaustion
import MiniDbms.Db.Concurrent

/-! # Calls while anything may fail

Any allocation, any opening of the file and any append may fail, at any time and in any thread.
The specification is a table of rows with one constructor for each way in which a call may come
out (`MiniDbms.Db.Permitted`). A call may only fail when something was refused to it, the message
tells whether its row was stored, and an answer is wrong in one way only: once `bptree_insert`
was refused a node, a row may not be found by its id, nor its id be taken for a stored one
(`MiniDbms.Db.calls_permitted`). A refusal elsewhere, of the memory for an answer say, has no such
consequence.
-/

namespace MiniDbms.Db

open Foundation Util Bptree

/-- What can be told of a store: the rows, the counter and the file. -/
structure Ledger where
  rows : List Record
  nextId : Int32
  file : List UInt8
  /-- No insertion into the index was refused a node. -/
  intact : Prop

/-- The call is an insert with these arguments. -/
inductive Call.Asks : Call → Bool → Int32 → CString → Int32 → Prop where
  | insert (name : CString) (age : Int32) : Asks (.insert name age) false 0 name age
  | insertWithId (id : Int32) (name : CString) (age : Int32) :
      Asks (.insertWithId id name age) true id name age

/-- The arguments of an insert pass the checks that do not need the rows. -/
structure Admissible (hasId : Bool) (id : Int32) (name : CString) (age : Int32) : Prop where
  idPos : hasId = true → 0 < id
  ageNonneg : 0 ≤ age
  nameValid : nameIsValid name.bytes = true

namespace Ledger

/-- The record that an insert builds. -/
def record (ledger : Ledger) (hasId : Bool) (id : Int32) (name : CString) (age : Int32) :
    Record where
  id := if hasId then id else ledger.nextId
  name := name.truncate dbNameLimit
  age := age

/-- An id that is given is a new one, as long as the index holds all rows. -/
def Fresh (ledger : Ledger) (hasId : Bool) (id : Int32) : Prop :=
  ledger.intact → hasId = true → id ∉ ledger.rows.map (·.id)

/-- The record and its line are added, and its id too, as far as `indexed` says. -/
def add (ledger : Ledger) (record : Record) (indexed : Prop) : Ledger where
  rows := ledger.rows ++ [record]
  nextId := advancedNextId ledger.nextId record.id
  file := ledger.file ++ recordLine record
  intact := ledger.intact ∧ indexed

/-- A part of a line is added to the file. -/
def tear (ledger : Ledger) (line : List UInt8) (written : Nat) : Ledger :=
  { ledger with file := ledger.file ++ line.take written }

end Ledger

/-- The errors of a select. -/
def selectErrors : List (List UInt8) :=
  [ascii "failed to acquire read lock", ascii "failed to serialize select result",
    ascii "failed to serialize indexed row", ascii "failed to serialize select separator",
    ascii "failed to serialize select row", ascii "failed to finalize select result"]

/-- The errors of an insert to which something was refused before its append. -/
def refusalErrors : List (List UInt8) :=
  [ascii "failed to acquire write lock", ascii "out of memory",
    ascii "failed to open data file for append"]

/-- The errors of an insert whose row is stored. -/
def lateErrors : List (List UInt8) :=
  [ascii "failed to update B+ tree index", ascii "failed to serialize insert result"]

/-- What a call may answer and leave behind; `quiet` says that nothing was refused to it, and
`indexed` that `bptree_insert` was refused no node. -/
inductive Permitted (quiet indexed : Prop) (ledger : Ledger) :
    Call → DbResult → Ledger → Prop where
  | invalid {call : Call} {hasId : Bool} {id : Int32} {name : CString} {age : Int32}
      (asks : call.Asks hasId id name age) (bad : ¬Admissible hasId id name age) :
      Permitted quiet indexed ledger call
        (makeErrorResult (ascii "invalid id, name, or age")) ledger
  | duplicate {id : Int32} {name : CString} {age : Int32}
      (admissible : Admissible true id name age) (stored : id ∈ ledger.rows.map (·.id)) :
      Permitted quiet indexed ledger (.insertWithId id name age)
        (makeErrorResult (ascii "duplicate id")) ledger
  | inserted {call : Call} {hasId : Bool} {id : Int32} {name : CString} {age : Int32}
      (asks : call.Asks hasId id name age) (admissible : Admissible hasId id name age)
      (fresh : ledger.Fresh hasId id) :
      Permitted quiet indexed ledger call (insertedResult (ledger.record hasId id name age))
        (ledger.add (ledger.record hasId id name age) indexed)
  | selected (filter : DbFilter) (projection : DbProjection) :
      Permitted quiet indexed ledger (.select filter projection)
        (selectedResult filter projection ledger.rows) ledger
  /-- No row is found by its id. -/
  | missed {filter : DbFilter} (projection : DbProjection) (byId : filter.type = .id)
      (damaged : ¬ledger.intact) :
      Permitted quiet indexed ledger (.select filter projection)
        (selectedResult filter projection []) ledger
  | unread {filter : DbFilter} {projection : DbProjection} {message : List UInt8}
      (refused : ¬quiet) (error : message ∈ selectErrors) :
      Permitted quiet indexed ledger (.select filter projection) (makeErrorResult message) ledger
  | stopped {call : Call} {hasId : Bool} {id : Int32} {name : CString} {age : Int32}
      {message : List UInt8} (asks : call.Asks hasId id name age) (refused : ¬quiet)
      (error : message ∈ refusalErrors)
      (checked : message ≠ ascii "failed to acquire write lock" →
        Admissible hasId id name age ∧ ledger.Fresh hasId id) :
      Permitted quiet indexed ledger call (makeErrorResult message) ledger
  /-- The append failed after some bytes. -/
  | torn {call : Call} {hasId : Bool} {id : Int32} {name : CString} {age : Int32}
      (asks : call.Asks hasId id name age) (admissible : Admissible hasId id name age)
      (fresh : ledger.Fresh hasId id) (refused : ¬quiet) (written : Nat) :
      Permitted quiet indexed ledger call (makeErrorResult (ascii "failed to append data file"))
        (ledger.tear (recordLine (ledger.record hasId id name age)) written)
  /-- The row is stored, but an error is answered. -/
  | stored {call : Call} {hasId : Bool} {id : Int32} {name : CString} {age : Int32}
      {message : List UInt8} (asks : call.Asks hasId id name age)
      (admissible : Admissible hasId id name age) (fresh : ledger.Fresh hasId id)
      (refused : ¬quiet) (error : message ∈ lateErrors)
      (cause : message = ascii "failed to update B+ tree index" → ¬indexed) :
      Permitted quiet indexed ledger call (makeErrorResult message)
        (ledger.add (ledger.record hasId id name age) indexed)

/-- The slots are the rows, and the index leads to the last row with an id or to none. -/
structure Indexed (db : DbEngine) : Prop where
  filled : db.records.length = db.count
  surviving : Surviving db.index fun id => (positions db.records).reverse.lookup id

section Index

variable {db : DbEngine}

namespace Indexed

theorem rows (indexed : Indexed db) : db.rows = db.records := by
  rw [DbEngine.rows, ← indexed.filled, List.take_length]

theorem empty (dataPath : BoundedString dbPathLimit) : Indexed (emptyEngine dataPath) :=
  ⟨rfl, .init _⟩

theorem capacity (indexed : Indexed db) (capacity : Nat) : Indexed (setCapacity db capacity) :=
  ⟨indexed.filled, indexed.surviving⟩

/-- A record was stored, whatever became of its id. -/
theorem extend (indexed : Indexed db) (record : Record) (heap : Heap) {next : DbEngine}
    (stored : next.records = (storeRecord db db.count record).records)
    (counted : next.count = db.count + 1)
    (index : next.index = (bptreeInsert db.index record.id db.count heap).2.1) : Indexed next := by
  have behind : db.records.drop (db.count + 1) = [] := by
    apply List.drop_eq_nil_of_le
    rw [indexed.filled]
    exact Nat.le_succ _
  have records : next.records = db.records ++ [record] := by
    rw [stored, storeRecord, behind, ← indexed.filled, List.take_length]
  have answers : (fun id => (positions next.records).reverse.lookup id) =
      Function.update (fun id => (positions db.records).reverse.lookup id) record.id
        (some db.count) := by
    funext id
    rw [records, positions_concat, indexed.filled, List.reverse_concat, lookup_cons_eq_ite,
      Function.update_apply]
  constructor
  · rw [records, counted, List.length_append, List.length_singleton, indexed.filled]
  · rw [answers, index]
    exact indexed.surviving.insert record.id db.count heap

/-- The index leads to the last row with the id, or to none. -/
theorem row (indexed : Indexed db) (id : Int32) :
    (bptreeSearch db.index id).bind (fun recordIndex => db.rows[recordIndex]?) = none ∨
      (bptreeSearch db.index id).bind (fun recordIndex => db.rows[recordIndex]?) =
        db.rows.reverse.find? (fun record => record.id = id) := by
  cases found : bptreeSearch db.index id with
  | none => exact .inl rfl
  | some position =>
      have answer := indexed.surviving.search found
      rw [← indexed.rows] at answer
      rw [← answer, lookup_positions]
      exact .inr rfl

/-- An id that is found is stored. -/
theorem mem_of_search (indexed : Indexed db) {id : Int32}
    (found : (bptreeSearch db.index id).isSome = true) : id ∈ db.rows.map (·.id) := by
  obtain ⟨position, found⟩ := Option.isSome_iff_exists.mp found
  have answer := indexed.surviving.search found
  rw [← map_fst_positions, indexed.rows]
  by_contra absent
  rw [(lookup_reverse_eq_none_iff _ _).mpr absent] at answer
  cases answer

end Indexed

end Index

/-- The rows that `db_select_projected` finds. -/
def DbEngine.found (db : DbEngine) (filter : DbFilter) : List Record :=
  if filter.type = .id then
    ((bptreeSearch db.index filter.id).bind fun recordIndex => db.rows[recordIndex]?).toList
  else filter.matching db.rows

section Select

variable {db : DbEngine} {builder : JsonBuilder} {text : List UInt8}

/-- The rows that are found are put into the array and counted. -/
theorem yields_selectFound (filter : DbFilter) (projection : DbProjection)
    (reads : Reads text builder) :
    Attempt.Yields (selectMatching db filter projection builder) fun out =>
      Reads (text ++ rowsJson projection.shown false (db.found filter)) out.1 ∧
        out.2 = (db.found filter).length := by
  unfold selectMatching DbEngine.found
  by_cases byId : filter.type = .id
  · rw [if_pos byId, if_pos byId]
    unfold selectIndexed
    cases (bptreeSearch db.index filter.id).bind fun recordIndex => db.rows[recordIndex]? with
    | none =>
        apply Attempt.Yields.pure
        simpa only [Option.toList_none, rowsJson, List.append_nil, List.length_nil, and_true] using
          reads
    | some record =>
        refine ((yields_record reads projection).orError _).bind fun filled filledReads => ?_
        apply Attempt.Yields.pure
        simpa only [Option.toList_some, rowsJson, Bool.false_eq_true, ↓reduceIte, List.nil_append,
          List.append_nil, List.length_singleton, and_true] using filledReads
  · rw [if_neg byId, if_neg byId, ← filter_includes byId]
    simpa only [Nat.zero_add] using yields_selectScan filter projection db.rows 0 reads

/-- So the result of a `select` is the array of the rows that are found. -/
theorem yields_selectLockedFound (db : DbEngine) (filter : DbFilter) (projection : DbProjection) :
    Attempt.Yields (selectLocked db filter projection) fun out =>
      out = (arrayJson projection.shown (db.found filter), (db.found filter).length) := by
  unfold selectLocked
  have opening : Attempt.Yields (do
      let builder ← jsonBuilderInit
      jsonBuilderAppend builder (ascii "[")) (Reads (ascii "[")) :=
    yields_init.bind fun empty emptyReads => yields_append emptyReads (by decide)
  refine (opening.orError _).bind fun opened openedReads => ?_
  refine (yields_selectFound filter projection openedReads).bind fun selected selectedReads => ?_
  obtain ⟨selected, matched⟩ := selected
  obtain ⟨selectedReads, rfl⟩ := selectedReads
  refine ((yields_append selectedReads (by decide)).orError _).bind fun closed closedReads => ?_
  apply Attempt.Yields.pure
  rw [closedReads.1]
  rfl

/-- A scan that fails has one of the errors of a `select`. -/
theorem fails_selectScan (filter : DbFilter) (projection : DbProjection) (rows : List Record)
    (builder : JsonBuilder) (needComma : Bool) (matched : Nat) :
    Attempt.Fails (selectScan filter projection rows builder needComma matched)
      (· ∈ selectErrors) := by
  induction rows generalizing builder needComma matched with
  | nil => exact .pure _
  | cons record rows ih =>
      have separated : Attempt.Fails (appendRowSeparator builder needComma)
          (· ∈ selectErrors) := by
        unfold appendRowSeparator
        split
        · exact .orError _ (by decide)
        · exact .pure _
      rw [selectScan]
      split
      · refine separated.bind fun next => ?_
        refine Attempt.Fails.bind (Attempt.Fails.orError _ ?_) fun filled => ?_
        · decide
        · exact ih filled true (matched + 1)
      · exact ih builder needComma matched

/-- So has a `select` with the lock. -/
theorem fails_selectLocked (db : DbEngine) (filter : DbFilter) (projection : DbProjection) :
    Attempt.Fails (selectLocked db filter projection) (· ∈ selectErrors) := by
  have matching : ∀ opened, Attempt.Fails (selectMatching db filter projection opened)
      (· ∈ selectErrors) := by
    intro opened
    unfold selectMatching selectIndexed
    split
    · split
      · exact .pure _
      · refine Attempt.Fails.bind (Attempt.Fails.orError _ ?_) fun _ => Attempt.Fails.pure _
        decide
    · exact fails_selectScan _ _ _ _ _ _
  unfold selectLocked
  refine Attempt.Fails.bind (Attempt.Fails.orError _ ?_) fun opened => ?_
  · decide
  · refine (matching opened).bind fun selected => ?_
    refine Attempt.Fails.bind (Attempt.Fails.orError _ ?_) fun _ => Attempt.Fails.pure _
    decide

/-- A select answers what it finds, or an error when something was refused to it. -/
theorem dbSelectProjected_cases {filter : DbFilter} {rows : List Record}
    (found : db.found filter = filter.matching rows) (projection : DbProjection)
    (env : Environment) :
    (dbSelectProjected filter projection env db).1 = selectedResult filter projection rows ∨
      ¬(env.Calm ∧ (dbSelectProjected filter projection env db).2.refused = false) ∧
        ∃ message ∈ selectErrors,
          (dbSelectProjected filter projection env db).1 = makeErrorResult message := by
  unfold dbSelectProjected
  simp only
  cases locks : env.lockFails with
  | true =>
      refine .inr ⟨fun quiet => ?_, _, List.mem_cons_self, rfl⟩
      cases quiet.1.lock.symm.trans locks
  | false =>
      have spec := yields_selectLockedFound db filter projection.orAll env.heap
      have error := fails_selectLocked db filter projection.orAll env.heap
      simp only [Bool.false_eq_true, ↓reduceIte]
      rcases ran : selectLocked db filter projection.orAll env.heap with
        ⟨message | ⟨json, matched⟩, heap⟩ <;> rw [ran] at spec
      · refine .inr ⟨fun quiet => ?_, message, error message heap ran, rfl⟩
        cases quiet.2.symm.trans spec
      · obtain ⟨_, same⟩ := spec
        cases same
        rw [found]
        exact .inl rfl

end Select

/-- The insertion of the id into the index is refused no node, when the call gets to it: the
requests before it are those of `db_reserve_records`. -/
def IndexGranted (store : Store) (env : Environment) (id : Int32) : Prop :=
  (bptreeInsert store.db.index id store.db.count
    (dbReserveRecords store.db (store.db.count + 1) env.heap).2.fresh).2.2.refused = false

/-- The call is refused no node of the index. -/
def CallIndexed (store : Store) : Call × Environment → Prop
  | (.insert _ _, env) => IndexGranted store env store.db.nextId
  | (.insertWithId id _ _, env) => IndexGranted store env id
  | (.select _ _, _) => True

/-- The store is as the ledger says. -/
structure Follows (store : Store) (ledger : Ledger) : Prop where
  rows : store.db.rows = ledger.rows
  nextId : store.db.nextId = ledger.nextId
  file : store.file = ledger.file
  indexed : Indexed store.db
  coherent : ledger.intact → Coherent store.db

section Insert

variable {quiet indexed : Prop} {store : Store} {ledger : Ledger} {hasId : Bool} {id : Int32}
  {name : CString} {age : Int32} {env : Environment}

theorem Follows.capacity (follows : Follows store ledger) (capacity : Nat) :
    Follows { db := setCapacity store.db capacity, file := store.file } ledger :=
  ⟨follows.rows, follows.nextId, follows.file, follows.indexed.capacity capacity,
    fun intact => (follows.coherent intact).capacity capacity⟩

/-- A part of a line in the file is not a row. -/
theorem Follows.tear (follows : Follows store ledger) (line : List UInt8) (written : Nat) :
    Follows { db := store.db, file := store.file ++ line.take written }
      (ledger.tear line written) where
  rows := follows.rows
  nextId := follows.nextId
  file := congrArg (· ++ line.take written) follows.file
  indexed := follows.indexed
  coherent := follows.coherent

theorem Follows.record (follows : Follows store ledger) :
    insertedRecord store.db hasId id name age = ledger.record hasId id name age := by
  rw [insertedRecord, follows.nextId]
  rfl

/-- The row is stored, whatever became of the index and the answer. -/
theorem Follows.add (follows : Follows store ledger) (record : Record) (heap : Heap)
    (granted : indexed → (bptreeInsert store.db.index record.id store.db.count
      heap.fresh).2.2.refused = false) :
    Follows (commitRecord store.db (store.file ++ recordLine record) record heap).store
      (ledger.add record indexed) := by
  rw [commitRecord_store]
  refine ⟨?_, ?_, ?_, follows.indexed.extend record heap rfl rfl rfl, fun intact => ?_⟩
  · exact (committed_rows store.db record).trans (congrArg (· ++ [record]) follows.rows)
  · exact congrArg (advancedNextId · record.id) follows.nextId
  · exact congrArg (· ++ recordLine record) follows.file
  · have coherent := follows.coherent intact.1
    have inserted := (coherent.indexed.insert (granted intact.2)).2
    rw [(bptreeInsert_fresh store.db.index record.id store.db.count heap).2] at inserted
    exact coherent.commit record inserted

/-- What is answered once the line is in the file. -/
theorem commitRecord_cases (db : DbEngine) (file : List UInt8) (record : Record) (heap : Heap) :
    (commitRecord db file record heap).result = insertedResult record ∨
      (commitRecord db file record heap).heap.refused = true ∧
        ∃ message ∈ lateErrors,
          (commitRecord db file record heap).result = makeErrorResult message ∧
            (message = ascii "failed to update B+ tree index" →
              (bptreeInsert db.index record.id db.count heap.fresh).2.2.refused = true) := by
  have succeeds := @bptreeInsert_returns db.index record.id db.count
  have blind := (bptreeInsert_fresh db.index record.id db.count heap).1
  rw [commitRecord_eq]
  rcases ran : bptreeInsert db.index record.id db.count heap with ⟨_ | _, index, after⟩
  · rw [ran] at blind
    refine .inr ⟨?_, _, List.mem_cons_self, rfl, fun _ => ?_⟩ <;>
      apply Bool.eq_true_of_not_eq_false
    · intro granted
      have returned := @succeeds heap
      rw [ran] at returned
      cases returned granted
    · intro granted
      cases blind.symm.trans (succeeds granted)
  · have spec := yields_serializeInsert record after
    simp only [answerInsert]
    rcases serialized : serializeInsert record after with ⟨_ | json, last⟩ <;>
      rw [serialized] at spec
    · refine .inr ⟨spec, _, List.mem_cons_of_mem _ List.mem_cons_self, rfl, fun same => ?_⟩
      exact absurd same (by decide)
    · obtain ⟨_, same⟩ := spec
      cases same
      exact .inl rfl

/-- What the checks let through is admissible. -/
theorem admissible_of_checks
    (valid : ((hasId && decide (id ≤ 0)) || decide (age < 0) || !nameIsValid name.bytes) = false) :
    Admissible hasId id name age := by
  simp only [Bool.or_eq_false_iff, Bool.and_eq_false_imp, decide_eq_false_iff_not, not_le, not_lt,
    Bool.not_eq_false'] at valid
  exact ⟨valid.1.1, valid.1.2, valid.2⟩

/-- What they refuse is not. -/
theorem not_admissible_of_checks
    (invalid : ((hasId && decide (id ≤ 0)) || decide (age < 0) || !nameIsValid name.bytes) =
      true) : ¬Admissible hasId id name age := by
  intro admissible
  simp only [Bool.or_eq_true, Bool.and_eq_true, decide_eq_true_eq, Bool.not_eq_true'] at invalid
  rcases invalid with (⟨given, notPos⟩ | negative) | bad
  · exact absurd (admissible.idPos given) (not_lt.mpr notPos)
  · exact absurd admissible.ageNonneg (not_le.mpr negative)
  · cases admissible.nameValid.symm.trans bad

/-- **An insert is permitted**, whatever is refused to it. -/
theorem insert_permitted {call : Call} (follows : Follows store ledger)
    (asks : call.Asks hasId id name age)
    (granted : quiet → env.Calm ∧
      (dbInsertInternal hasId id name age env store).heap.refused = false)
    (unrefused : indexed →
      IndexGranted store env (insertedRecord store.db hasId id name age).id) :
    ∃ next,
      Permitted quiet indexed ledger call (dbInsertInternal hasId id name age env store).result
        next ∧
      Follows (dbInsertInternal hasId id name age env store).store next := by
  have record := @Follows.record store ledger hasId id name age follows
  rw [record, IndexGranted] at unrefused
  simp only [dbInsertInternal] at granted ⊢
  split at granted
  · next fails =>
      rw [if_pos fails]
      refine ⟨ledger, .stopped asks (fun calm => ?_) List.mem_cons_self
        fun different => absurd rfl different, follows⟩
      cases (granted calm).1.lock.symm.trans fails
  · next locks =>
      rw [if_neg locks]
      split at granted
      · next invalid =>
          rw [if_pos invalid]
          exact ⟨ledger, .invalid asks (not_admissible_of_checks invalid), follows⟩
      · next valid =>
          rw [if_neg valid]
          have admissible := admissible_of_checks (Bool.eq_false_iff.mpr valid)
          split at granted
          · next present =>
              rw [if_pos present]
              obtain ⟨given, present⟩ := Bool.and_eq_true_iff.mp present
              have stored := follows.indexed.mem_of_search present
              rw [follows.rows] at stored
              cases asks with
              | insert => cases given
              | insertWithId => exact ⟨ledger, .duplicate admissible stored, follows⟩
          · next absent =>
              rw [if_neg absent]
              have fresh : ledger.Fresh hasId id := by
                intro intact given stored
                rw [← follows.rows, ← (follows.coherent intact).search_isSome] at stored
                exact absent (Bool.and_eq_true_iff.mpr ⟨given, stored⟩)
              have reserved := yields_reserveRecords store.db (store.db.count + 1) env.heap
              rcases ran : dbReserveRecords store.db (store.db.count + 1) env.heap with
                ⟨_ | db, heap⟩ <;> simp only [ran] at reserved granted unrefused ⊢
              · refine ⟨ledger, .stopped asks (fun calm => ?_) ?_ fun _ => ⟨admissible, fresh⟩,
                  follows⟩
                · cases (granted calm).2.symm.trans reserved
                · exact List.mem_cons_of_mem _ List.mem_cons_self
              · obtain ⟨_, capacity, rfl⟩ := reserved
                have roomy := follows.capacity capacity
                have same : insertedRecord (setCapacity store.db capacity) hasId id name age =
                    ledger.record hasId id name age := record
                rw [same] at granted ⊢
                split at granted
                · next unopened =>
                    rw [if_pos unopened]
                    refine ⟨ledger, .stopped asks (fun calm => ?_) ?_
                      fun _ => ⟨admissible, fresh⟩, roomy⟩
                    · cases (granted calm).1.opens.symm.trans unopened
                    · exact List.mem_cons_of_mem _ (List.mem_cons_of_mem _ List.mem_cons_self)
                · next opened =>
                    rw [if_neg opened]
                    cases append : env.appendFails with
                    | some written =>
                        refine ⟨_, .torn asks admissible fresh (fun calm => ?_) written,
                          roomy.tear _ written⟩
                        cases (granted calm).1.appends.symm.trans append
                    | none =>
                        simp only [append] at granted ⊢
                        refine ⟨_, ?_, roomy.add _ heap unrefused⟩
                        rcases commitRecord_cases (setCapacity store.db capacity)
                          (store.file ++ recordLine (ledger.record hasId id name age))
                          (ledger.record hasId id name age) heap with
                          answered | ⟨refused, message, error, answered, index⟩ <;> rw [answered]
                        · exact .inserted asks admissible fresh
                        · refine .stored asks admissible fresh (fun calm => ?_) error
                            fun same kept => ?_
                          · cases (granted calm).2.symm.trans refused
                          · cases (unrefused kept).symm.trans (index same)

end Insert

/-- The rows found are those of the filter, or none once the index was damaged. -/
theorem Follows.found {store : Store} {ledger : Ledger} (follows : Follows store ledger)
    (filter : DbFilter) :
    store.db.found filter = filter.matching ledger.rows ∨
      filter.type = .id ∧ ¬ledger.intact ∧ store.db.found filter = filter.matching [] := by
  unfold DbEngine.found
  by_cases byId : filter.type = .id
  · rw [if_pos byId]
    have all : filter.matching ledger.rows =
        (store.db.rows.reverse.find? fun record => record.id = filter.id).toList := by
      rw [DbFilter.matching, byId, follows.rows]
    have nothing : filter.matching [] = [] := by
      rw [DbFilter.matching, byId]
      rfl
    by_cases intact : ledger.intact
    · rw [(follows.coherent intact).indexedRow, all]
      exact .inl rfl
    · rcases follows.indexed.row filter.id with none | last
      · rw [none, nothing]
        exact .inr ⟨byId, intact, rfl⟩
      · rw [last, all]
        exact .inl rfl
  · rw [if_neg byId, follows.rows]
    exact .inl rfl

/-- **Every call is permitted**, whatever is refused to it. -/
theorem Follows.call {quiet indexed : Prop} {store : Store} {ledger : Ledger}
    (follows : Follows store ledger) (call : Call) {env : Environment}
    (granted : quiet → env.Calm ∧ (call.run env store).heap.refused = false)
    (unrefused : indexed → CallIndexed store (call, env)) :
    ∃ next, Permitted quiet indexed ledger call (call.run env store).result next ∧
      Follows (call.run env store).store next := by
  cases call with
  | insert name age => exact insert_permitted follows (.insert name age) granted unrefused
  | insertWithId id name age =>
      exact insert_permitted follows (.insertWithId id name age) granted unrefused
  | select filter projection =>
      refine ⟨ledger, ?_, follows⟩
      simp only [Call.run] at granted ⊢
      rcases follows.found filter with found | ⟨byId, damaged, found⟩
      · rcases dbSelectProjected_cases found projection env with
          answered | ⟨refused, message, error, answered⟩ <;> rw [answered]
        · exact .selected filter projection
        · exact .unread (fun calm => refused (granted calm)) error
      · rcases dbSelectProjected_cases found projection env with
          answered | ⟨refused, message, error, answered⟩ <;> rw [answered]
        · exact .missed projection byId damaged
        · exact .unread (fun calm => refused (granted calm)) error

/-- The ledger of an engine that was opened on a file with these records. -/
def openedLedger (records : List Record) (file : List UInt8) (intact : Prop) : Ledger where
  rows := records
  nextId := records.foldl (fun nextId record => loadedNextId nextId record.id) 1
  file := file
  intact := intact

/-- The same surroundings, with nothing refused so far. -/
def Environment.fresh (env : Environment) : Environment := { env with heap := env.heap.fresh }

section Loading

variable {db : DbEngine}

/-- Loading a line does not depend on what was refused before. -/
theorem blind_loadLine (db : DbEngine) (line : List UInt8) : Attempt.Blind (loadLine db line) := by
  have reserved : ∀ needed, Attempt.Blind (dbReserveRecords db needed) := by
    intro needed
    unfold dbReserveRecords
    split
    · exact Attempt.Blind.pure db
    · exact (Attempt.Blind.malloc _).bind fun _ => Attempt.Blind.pure _
  have inserted : ∀ index key value, Attempt.Blind (indexInsert index key value) := by
    intro index key value heap refusal
    simp only [indexInsert, bptreeInsert_noting]
    rcases bptreeInsert index key value heap with ⟨_ | _, next, after⟩ <;> rfl
  unfold loadLine
  rcases readLine line with message | _ | record
  · exact Attempt.Blind.fail message
  · exact Attempt.Blind.pure db
  · refine Attempt.Blind.orError ((reserved _).bind fun stored => ?_) _
    exact (inserted _ _ _).bind fun index => Attempt.Blind.pure _

/-- Loading does not depend on earlier refusals. -/
theorem blind_loadLines (lines : List (List UInt8)) (db : DbEngine) :
    Attempt.Blind (loadLines lines db) := by
  induction lines generalizing db with
  | nil => exact Attempt.Blind.pure db
  | cons line lines ih => exact (blind_loadLine db line).bind ih

/-- A record that was loaded is stored and indexed. -/
theorem Indexed.load {next : DbEngine} {record : Record} {heap : Heap} (indexed : Indexed db)
    (loaded : (loadRecord db record heap).1 = .ok next) : Indexed next := by
  obtain ⟨capacity, middle, rfl⟩ := loadRecord_ok loaded
  exact indexed.extend record middle rfl rfl rfl

/-- Whatever was refused to `db_init`, an engine that it opens holds the records in the file. Its
index holds them all, unless `bptree_insert` was refused a node: other refusals are errors. -/
theorem follows_opened {dataPath : CString} {file : List UInt8} {env : Environment}
    (opened : (dbInit dataPath file env).1 = .ok db) :
    ∃ records, readFile file = .ok records ∧
      Follows { db := db, file := file }
        (openedLedger records file ((dbInit dataPath file env.fresh).2.refused = false)) := by
  unfold dbInit at opened ⊢
  split at opened
  · cases opened
  · next fits =>
      rw [if_neg fits]
      split at opened
      · cases opened
      · next locks =>
          rw [if_neg (show ¬env.fresh.lockFails = true from locks)]
          split at opened
          · cases opened
          · next opens =>
              rw [if_neg (show ¬env.fresh.openFails = true from opens)]
              obtain ⟨records, read, indexed, rows, nextId⟩ :=
                loadLines_ok Indexed.load (Indexed.empty (dataPath.truncate dbPathLimit)) opened
              refine ⟨records, read, rows, nextId, rfl, indexed, fun granted => ?_⟩
              have loaded := granted_loadLines (Coherent.empty (dataPath.truncate dbPathLimit))
                (chunks lineLimit file) env.heap.fresh granted
              rw [show readLines (chunks lineLimit file) = .ok records from read,
                (blind_loadLines _ _).fresh, opened] at loaded
              obtain ⟨_, same, loaded⟩ := loaded
              cases same
              exact loaded.coherent

end Loading

/-- The lock can be taken. -/
def Environment.unlocked (env : Environment) : Environment := { env with lockFails := false }

/-- The task in surroundings in which the lock can be taken. -/
def Task.unlocked : Task → Task
  | .insert insertion phase => .insert { insertion with env := insertion.env.unlocked } phase
  | .select query phase => .select { query with env := query.env.unlocked } phase

/-- A completed call does what it does by itself. -/
theorem completes_run {call : Call} {env : Environment} {store next : Store}
    {answer : DbResult × Heap} (completes : lockProtocol.Completes (call, env) store answer next) :
    answer = ((call.run env.unlocked store).result, (call.run env.unlocked store).heap) ∧
      next = (call.run env.unlocked store).store := by
  have unlocked : lockProtocol.Completes (call, env.unlocked) store answer next := by
    refine completes.map Task.unlocked ?_ ?_ ?_
    · cases call <;> rfl
    · intro here shared
      cases here with
      | insert insertion phase => cases phase <;> rfl
      | select query phase => cases phase <;> rfl
    · intro here
      cases here with
      | insert insertion phase => cases phase <;> rfl
      | select query phase => cases phase <;> rfl
  exact unlocked.unique (call_completes call rfl store)

variable {Thread : Type}

/-- The completed calls, made one after the other from the store on, are permitted. -/
inductive PermittedRun (start : Store) (opened : Ledger) :
    List (Completed Thread (Call × Environment) (DbResult × Heap)) → Ledger → Prop where
  | nil : PermittedRun start opened [] opened
  /-- The store before the last call tells which nodes this one asks for. -/
  | snoc {log : List (Completed Thread (Call × Environment) (DbResult × Heap))} {store : Store}
      {ledger next : Ledger} {entry : Completed Thread (Call × Environment) (DbResult × Heap)}
      (earlier : PermittedRun start opened log ledger)
      (before : lockProtocol.Replays start log store)
      (last : Permitted (Provided entry) (CallIndexed store entry.op) ledger entry.op.1
        entry.result.1 next) :
      PermittedRun start opened (log ++ [entry]) next

/-- The table only grows. -/
theorem Permitted.rows_prefix {quiet indexed : Prop} {ledger next : Ledger} {call : Call}
    {result : DbResult} (permitted : Permitted quiet indexed ledger call result next) :
    ledger.rows <+: next.rows := by
  cases permitted with
  | inserted | stored => exact List.prefix_append _ _
  | invalid | duplicate | selected | missed | unread | stopped | torn => exact List.prefix_refl _

/-- What a call in a run was permitted to do, and what the calls up to it come to. -/
theorem PermittedRun.entry {start : Store} {opened last : Ledger}
    {log : List (Completed Thread (Call × Environment) (DbResult × Heap))}
    (run : PermittedRun start opened log last) {position : Nat}
    {entry : Completed Thread (Call × Environment) (DbResult × Heap)}
    (found : log[position]? = some entry) :
    ∃ store ledger next,
      Permitted (Provided entry) (CallIndexed store entry.op) ledger entry.op.1 entry.result.1
        next ∧
      PermittedRun start opened (log.take (position + 1)) next ∧ next.rows <+: last.rows := by
  induction run with
  | nil => cases found
  | @snoc log store ledger next final earlier before permitted ih =>
      obtain ⟨bound, _⟩ := List.getElem?_eq_some_iff.mp found
      rw [List.length_append, List.length_singleton] at bound
      rcases Nat.lt_or_ge position log.length with inside | beyond
      · rw [List.getElem?_append_left inside] at found
        obtain ⟨store, middle, reached, one, run, grows⟩ := ih found
        refine ⟨store, middle, reached, one, ?_, grows.trans permitted.rows_prefix⟩
        rwa [List.take_append_of_le_length inside]
      · obtain rfl : position = log.length := by omega
        rw [List.getElem?_concat_length] at found
        cases found
        refine ⟨store, ledger, next, permitted, ?_, List.prefix_refl _⟩
        rw [List.take_of_length_le (by rw [List.length_append, List.length_singleton])]
        exact earlier.snoc before permitted

/-- What the store is a replay of, the ledger follows. -/
theorem Follows.replays {start base : Store} {ledger : Ledger} (follows : Follows start ledger)
    {log : List (Completed Thread (Call × Environment) (DbResult × Heap))}
    (replayed : lockProtocol.Replays start log base) :
    ∃ last, PermittedRun start ledger log last ∧ Follows base last := by
  induction replayed with
  | nil => exact ⟨ledger, .nil, follows⟩
  | @snoc log shared next entry earlier completed ih =>
      obtain ⟨middle, run, reached⟩ := ih
      obtain ⟨answered, rfl⟩ := completes_run completed
      have granted : Provided entry → entry.op.2.unlocked.Calm ∧
          (entry.op.1.run entry.op.2.unlocked shared).heap.refused = false := by
        intro provided
        have granted := provided.granted
        rw [answered] at granted
        exact ⟨⟨rfl, provided.calm.opens, provided.calm.appends⟩, granted⟩
      have unrefused : CallIndexed shared entry.op →
          CallIndexed shared (entry.op.1, entry.op.2.unlocked) := by
        rcases entry.op with ⟨_ | _ | _, env⟩ <;> exact id
      obtain ⟨last, permitted, kept⟩ := reached.call entry.op.1 granted unrefused
      refine ⟨last, run.snoc earlier ?_, kept⟩
      rw [answered]
      exact permitted

variable [DecidableEq Thread]

/-- **Calls while anything may fail.** An engine was opened on some file, and any number of
threads call it, in any interleaving; allocations, openings of the file and appends may fail at
any time. The completed calls, one after the other, are permitted from the records in the file
on: what was refused nothing is answered as by the table, an error tells whether the row was
stored, and only after `bptree_insert` was refused a node may a row not be found by its id, or an
insert that gives the id of a stored row not be rejected. The order is that in which conflicting
calls took the lock, and unless an insert holds it, the rows, the counter and the file are those
of the specification. -/
theorem calls_permitted {dataPath : CString} {file : List UInt8} {env : Environment} {db : DbEngine}
    (opened : (dbInit dataPath file env).1 = .ok db)
    {moves : List (Move Thread (Call × Environment))}
    {config : Config Thread (Call × Environment) Task Store (DbResult × Heap)}
    (ran : (Config.initial { db := db, file := file }).run lockProtocol moves = some config) :
    ∃ records last, readFile file = .ok records ∧
      PermittedRun { db := db, file := file }
        (openedLedger records file ((dbInit dataPath file env.fresh).2.refused = false))
        config.log last ∧
      config.log.Pairwise lockProtocol.InOrder ∧
      (config.lock.writer = none →
        config.shared.db.rows = last.rows ∧ config.shared.db.nextId = last.nextId ∧
          config.shared.file = last.file) := by
  obtain ⟨records, read, follows⟩ := follows_opened opened
  obtain ⟨base, serialized⟩ := Config.serialized serialized_initial ran
  obtain ⟨last, run, reached⟩ := follows.replays serialized.replayed
  refine ⟨records, last, read, run, serialized.ordered, fun free => ?_⟩
  rw [serialized.settled free]
  exact ⟨reached.rows, reached.nextId, reached.file⟩

/-- An insert to which the memory for its answer is refused, and a select that finds its row. -/
theorem calls_permitted_refused :
    let path := CString.ofBuffer (ascii "users.csv")
    let file := ascii "7,ann,30\n"
    let start : Store := { db := openedEngine path file .calm, file := file }
    let short : Environment :=
      { Environment.calm with heap := { Heap.generous with grants := fun _ => false } }
    let byId : DbFilter :=
      { type := .id, id := 8, name := (CString.ofBuffer []).truncate dbNameLimit }
    let insert : Call × Environment := (.insert (CString.ofBuffer (ascii "bob")) 31, short)
    let select : Call × Environment := (.select byId allColumnsProjection, .calm)
    let moves : List (Move Nat (Call × Environment)) :=
      [.request 0 insert, .request 1 select, .acquire 0] ++ List.replicate 10 (.work 0) ++
        [.release 0, .acquire 1] ++ List.replicate 4 (.work 1) ++ [.release 1]
    ∃ config, (Config.initial start).run lockProtocol moves = some config ∧
      config.log.map (·.result.1.ok) = [false, true] ∧
      ∃ records last, readFile file = .ok records ∧
        PermittedRun start
          (openedLedger records file
            ((dbInit path file Environment.calm.fresh).2.refused = false))
          config.log last ∧ last.rows = config.shared.db.rows := by
  intro path file start short byId insert select moves
  have opened := @dbInit_of_isOk path file .calm (by decide +kernel)
  have checked : ((Config.initial start).run lockProtocol moves).any (fun config =>
      decide (config.log.map (·.result.1.ok) = [false, true]) &&
        decide (config.lock.writer = none)) = true := by
    decide +kernel
  obtain ⟨config, ran, facts⟩ := (Option.any_eq_true _ _).mp checked
  obtain ⟨answers, free⟩ := Bool.and_eq_true_iff.mp facts
  obtain ⟨records, last, read, run, _, ends⟩ := calls_permitted opened ran
  exact ⟨config, ran, of_decide_eq_true answers, records, last, read, run,
    (ends (of_decide_eq_true free)).1.symm⟩

end MiniDbms.Db
