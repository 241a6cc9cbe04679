import MiniDbms.Bptree.Map
import MiniDbms.Db.Engine

/-! # The index and the records

The index of a coherent engine holds, for every id stored, the position of the
last record with that id (`MiniDbms.Db.Coherent`). The loader and the inserts keep it
so, each in its own order, whenever no allocation is refused. What the loader makes
of a file is `MiniDbms.Db.dbInit_spec`.
-/

namespace MiniDbms.Db

open Foundation Util Bptree

/-- Every id with its position, in the order of the records. -/
def positions (rows : List Record) : List (Int32 × Nat) := (rows.map (·.id)).zipIdx

theorem positions_concat (rows : List Record) (record : Record) :
    positions (rows ++ [record]) = positions rows ++ [(record.id, rows.length)] := by
  simp [positions, List.zipIdx_append]

theorem map_fst_positions (rows : List Record) :
    (positions rows).map Prod.fst = rows.map (·.id) := by
  simp [positions]

/-- The slots are the rows, and the index holds their positions. -/
structure Coherent (db : DbEngine) : Prop where
  filled : db.records.length = db.count
  indexed : Represents db.index (ofWrites (positions db.records))

namespace Coherent

variable {db : DbEngine}

theorem rows (coherent : Coherent db) : db.rows = db.records := by
  rw [DbEngine.rows, ← coherent.filled, List.take_length]

theorem empty (dataPath : BoundedString dbPathLimit) : Coherent (emptyEngine dataPath) :=
  ⟨rfl, represents_init⟩

theorem capacity (coherent : Coherent db) (capacity : Nat) :
    Coherent (setCapacity db capacity) :=
  ⟨coherent.filled, coherent.indexed⟩

/-- Storing a record behind the last row adds a row. -/
theorem storeRecord_records (coherent : Coherent db) (record : Record) :
    (storeRecord db db.count record).records = db.records ++ [record] := by
  have none : db.records.drop (db.count + 1) = [] :=
    List.drop_eq_nil_of_le (by rw [coherent.filled]; omega)
  rw [storeRecord, none, ← coherent.filled, List.take_length]

/-- A stored record whose id was written into the index keeps the engine coherent. -/
theorem extend (coherent : Coherent db) (record : Record) (next : DbEngine)
    (stored : next.records = db.records ++ [record]) (counted : next.count = db.count + 1)
    (indexed : Represents next.index
      (upsert record.id db.count (ofWrites (positions db.records)))) : Coherent next where
  filled := by rw [stored, counted, List.length_append, List.length_singleton, coherent.filled]
  indexed := by rwa [stored, positions_concat, ofWrites_concat, coherent.filled]

end Coherent

/-- The position of an id is that of its last row. -/
theorem lookup_positions_split {rows : List Record} {id : Int32} {position : Nat}
    (found : (positions rows).reverse.lookup id = some position) :
    ∃ before record after, rows = before ++ record :: after ∧ before.length = position ∧
      record.id = id ∧ ∀ later ∈ after, later.id ≠ id := by
  induction rows using List.reverseRecOn with
  | nil => cases found
  | append_singleton rows record ih =>
      rw [positions_concat, List.reverse_concat, lookup_cons_eq_ite] at found
      by_cases same : id = record.id
      · rw [if_pos same] at found
        cases found
        exact ⟨rows, record, [], rfl, rfl, same.symm, nofun⟩
      · rw [if_neg same] at found
        obtain ⟨before, row, after, rfl, placed, kept, last⟩ := ih found
        refine ⟨before, row, after ++ [record], by rw [List.append_assoc, List.cons_append],
          placed, kept, fun later member => ?_⟩
        rcases List.mem_append.mp member with inside | isLast
        · exact last later inside
        · rw [List.mem_singleton.mp isLast]
          exact Ne.symm same

/-- The row at the position of an id is the last one with that id. -/
theorem lookup_positions (rows : List Record) (id : Int32) :
    ((positions rows).reverse.lookup id).bind (rows[·]?) =
      rows.reverse.find? (fun record => record.id = id) := by
  cases found : (positions rows).reverse.lookup id with
  | none =>
      rw [lookup_reverse_eq_none_iff, map_fst_positions] at found
      symm
      rw [Option.bind_none, List.find?_eq_none]
      intro record member
      rw [decide_eq_true_eq]
      rintro rfl
      exact found (List.mem_map_of_mem (List.mem_reverse.mp member))
  | some position =>
      obtain ⟨before, record, after, rfl, rfl, rfl, last⟩ := lookup_positions_split found
      rw [Option.bind_some, List.getElem?_append_right (Nat.le_refl _), Nat.sub_self,
        List.getElem?_cons_zero, List.reverse_append, List.reverse_cons, List.append_assoc,
        List.find?_append, List.find?_eq_none.mpr]
      · simp
      · intro later member
        simpa using last later (List.mem_reverse.mp member)

variable {db : DbEngine}

/-- `bptree_search` reads the positions of the rows. -/
theorem Coherent.search (coherent : Coherent db) (id : Int32) :
    bptreeSearch db.index id = (positions db.rows).reverse.lookup id := by
  rw [coherent.indexed.search, lookup_ofWrites, coherent.rows]

/-- The index finds an id exactly when a row has it. -/
theorem Coherent.search_isSome (coherent : Coherent db) (id : Int32) :
    (bptreeSearch db.index id).isSome = true ↔ id ∈ db.rows.map (·.id) := by
  rw [coherent.search, ← not_iff_not, Bool.not_eq_true, Option.isSome_eq_false_iff,
    Option.isNone_iff_eq_none, lookup_reverse_eq_none_iff, map_fst_positions]

/-- The row the index leads to is the last one with the id. -/
theorem Coherent.indexedRow (coherent : Coherent db) (id : Int32) :
    (bptreeSearch db.index id).bind (fun recordIndex => db.rows[recordIndex]?) =
      db.rows.reverse.find? (fun record => record.id = id) := by
  rw [coherent.search, lookup_positions]

/-- Reserving room changes nothing but the room. -/
theorem yields_reserveRecords (db : DbEngine) (needed : Nat) :
    Attempt.Yields (dbReserveRecords db needed) fun next =>
      ∃ capacity, next = setCapacity db capacity := by
  unfold dbReserveRecords
  split
  · exact Attempt.Yields.pure ⟨db.capacity, rfl⟩
  · exact (Attempt.Yields.malloc _).bind fun _ _ => Attempt.Yields.pure ⟨_, rfl⟩

/-- A refusal in the index stays noted. -/
theorem sticky_indexInsert (index : BPlusTree) (key : Int32) (value : Nat) :
    Attempt.Sticky (indexInsert index key value) := by
  intro heap granted
  unfold indexInsert at granted
  apply @bptreeInsert_granted index key value heap
  rcases ran : bptreeInsert index key value heap with ⟨_ | _, next, after⟩ <;>
    rw [ran] at granted <;> exact granted

/-- When nothing is refused, the index represents the new position, too. -/
theorem granted_indexInsert {index : BPlusTree} {entries : List (Int32 × Nat)}
    (represents : Represents index entries) (key : Int32) (value : Nat) :
    Attempt.Granted (indexInsert index key value)
      (Attempt.Returned fun next => Represents next (upsert key value entries)) := by
  intro heap granted
  unfold indexInsert at granted ⊢
  have inserted := @Represents.insert index entries represents key value heap
  rcases ran : bptreeInsert index key value heap with ⟨_ | _, next, after⟩ <;>
    rw [ran] at granted inserted <;> obtain ⟨returned, represented⟩ := inserted granted
  · cases returned
  · exact ⟨next, rfl, represented⟩

/-- `next` is `db` after loading `records`. -/
structure Loaded (db : DbEngine) (records : List Record) (next : DbEngine) : Prop where
  coherent : Coherent next
  rows : next.rows = db.rows ++ records
  nextId : next.nextId =
    records.foldl (fun nextId record => loadedNextId nextId record.id) db.nextId
  dataPath : next.dataPath = db.dataPath

theorem Loaded.refl (coherent : Coherent db) : Loaded db [] db :=
  ⟨coherent, (List.append_nil _).symm, rfl, rfl⟩

/-- Records are loaded one list after the other. -/
theorem Loaded.trans {first second : List Record} {middle last : DbEngine}
    (one : Loaded db first middle) (two : Loaded middle second last) :
    Loaded db (first ++ second) last where
  coherent := two.coherent
  rows := by rw [two.rows, one.rows, List.append_assoc]
  nextId := by rw [two.nextId, one.nextId, List.foldl_append]
  dataPath := two.dataPath.trans one.dataPath

/-- Storing a record at `count` adds a row, whatever the slots held. -/
theorem rows_storeRecord (db : DbEngine) (record : Record) :
    (incrementCount (storeRecord db db.count record)).rows = db.rows ++ [record] := by
  change (db.records.take db.count ++ record :: db.records.drop (db.count + 1)).take
    (db.count + 1) =
    db.records.take db.count ++ [record]
  rcases Nat.lt_or_ge db.records.length db.count with short | enough
  · rw [List.drop_eq_nil_of_le (by omega), List.take_of_length_le (by
      rw [List.length_append, List.length_take, List.length_singleton]; omega)]
  · rw [List.take_append, List.take_take, List.length_take, Nat.min_eq_left enough,
      Nat.min_eq_right (Nat.le_succ _), Nat.add_sub_cancel_left]
    rfl

/-- What `load_record` leaves of an engine when it succeeds. -/
theorem loadRecord_ok {next : DbEngine} {record : Record} {heap : Heap}
    (loaded : (loadRecord db record heap).1 = .ok next) :
    ∃ capacity middle, next =
      setNextId (incrementCount (setIndex (storeRecord (setCapacity db capacity) db.count record)
          (bptreeInsert db.index record.id db.count middle).2.1))
        (loadedNextId db.nextId record.id) := by
  obtain ⟨reserved, middle, ran, loaded⟩ := Attempt.ok_of_bind loaded
  have spec := yields_reserveRecords db (db.count + 1) heap
  rw [ran] at spec
  obtain ⟨_, capacity, rfl⟩ := spec
  obtain ⟨index, last, inserted, returned⟩ := Attempt.ok_of_bind loaded
  cases returned
  refine ⟨capacity, middle, ?_⟩
  simp only [indexInsert, setCapacity, storeRecord] at inserted
  rcases done : bptreeInsert db.index record.id db.count middle with ⟨_ | _, tree, after⟩ <;>
    rw [done] at inserted <;> cases inserted
  rfl

/-- Lines that were loaded could all be read, and what every loaded record keeps is kept. -/
theorem loadLines_ok {kept : DbEngine → Prop}
    (step : ∀ {db next : DbEngine} {record : Record} {heap : Heap}, kept db →
      (loadRecord db record heap).1 = .ok next → kept next)
    {lines : List (List UInt8)} {next : DbEngine} {heap : Heap} (start : kept db)
    (loaded : (loadLines lines db heap).1 = .ok next) :
    ∃ records, readLines lines = .ok records ∧ kept next ∧ next.rows = db.rows ++ records ∧
      next.nextId =
        records.foldl (fun nextId record => loadedNextId nextId record.id) db.nextId := by
  induction lines generalizing db heap with
  | nil =>
      cases loaded
      exact ⟨[], rfl, start, (List.append_nil _).symm, rfl⟩
  | cons line lines ih =>
      obtain ⟨middle, after, ran, loaded⟩ := Attempt.ok_of_bind loaded
      simp only [readLines]
      unfold loadLine at ran
      rcases one : readLine line with message | _ | record <;> rw [one] at ran
      · cases ran
      · cases ran
        obtain ⟨records, read, last, rows, nextId⟩ := ih start loaded
        rw [read]
        exact ⟨records, rfl, last, rows, nextId⟩
      · have stored := congrArg Prod.fst (Attempt.ok_of_orError ran)
        obtain ⟨capacity, before, rfl⟩ := loadRecord_ok stored
        obtain ⟨records, read, last, rows, nextId⟩ := ih (step start stored) loaded
        rw [read]
        refine ⟨record :: records, rfl, last, ?_, ?_⟩
        · rw [rows]
          change (incrementCount (storeRecord db db.count record)).rows ++ records = _
          rw [rows_storeRecord, List.append_assoc]
          rfl
        · rw [nextId]
          rfl

theorem sticky_loadRecord (db : DbEngine) (record : Record) :
    Attempt.Sticky (loadRecord db record) :=
  (yields_reserveRecords db _).sticky.bind fun _ =>
    (sticky_indexInsert _ _ _).bind fun _ => Attempt.Sticky.pure _

/-- When nothing is refused, a record is loaded. -/
theorem granted_loadRecord (coherent : Coherent db) (record : Record) :
    Attempt.Granted (loadRecord db record) (Attempt.Returned (Loaded db [record])) := by
  unfold loadRecord
  refine (yields_reserveRecords db _).granted.bind
    (fun _ => (sticky_indexInsert _ _ _).bind fun _ => Attempt.Sticky.pure _) ?_
  rintro _ ⟨capacity, rfl⟩
  have reserved := coherent.capacity capacity
  have stored := reserved.storeRecord_records record
  refine (granted_indexInsert reserved.indexed record.id db.count).bind
    (fun _ => Attempt.Sticky.pure _) fun index represents => ?_
  apply Attempt.Granted.pure
  refine ⟨_, rfl, ?_⟩
  have extended := reserved.extend record
    (setNextId (incrementCount
      (setIndex (storeRecord (setCapacity db capacity) db.count record) index))
      (loadedNextId db.nextId record.id))
    stored rfl represents
  exact ⟨extended, extended.rows.trans (stored.trans (congrArg (· ++ [record]) coherent.rows.symm)),
    rfl, rfl⟩

/-- A refusal while a line is loaded stays noted. -/
theorem sticky_loadLine (db : DbEngine) (line : List UInt8) :
    Attempt.Sticky (loadLine db line) := by
  unfold loadLine
  rcases readLine line with message | _ | record
  · exact Attempt.Sticky.fail message
  · exact Attempt.Sticky.pure db
  · exact (sticky_loadRecord db record).orError _

/-- So does one while the lines are loaded. -/
theorem sticky_loadLines (lines : List (List UInt8)) (db : DbEngine) :
    Attempt.Sticky (loadLines lines db) := by
  induction lines generalizing db with
  | nil => exact Attempt.Sticky.pure db
  | cons line lines ih => exact (sticky_loadLine db line).bind ih

/-- What loading comes to when `read` is what reading gave: the error, or the
records loaded. -/
def LoadedOr (db : DbEngine) :
    Except (List UInt8) (List Record) → Except (List UInt8) DbEngine → Prop
  | .error message, outcome => outcome = .error message
  | .ok records, outcome => Attempt.Returned (Loaded db records) outcome

/-- When nothing is refused, the lines are loaded as they are read. -/
theorem granted_loadLines (coherent : Coherent db) (lines : List (List UInt8)) :
    Attempt.Granted (loadLines lines db) (LoadedOr db (readLines lines)) := by
  induction lines generalizing db with
  | nil => exact Attempt.Granted.pure ⟨db, rfl, Loaded.refl coherent⟩
  | cons line lines ih =>
      have rest : ∀ found middle, Loaded db found middle →
          Attempt.Granted (loadLines lines middle)
            (LoadedOr db (do let records ← readLines lines; return found ++ records)) := by
        intro found middle loaded heap granted
        have outcome := ih loaded.coherent heap granted
        cases read : readLines lines with
        | error message => rw [read] at outcome; exact outcome
        | ok records =>
            rw [read] at outcome
            obtain ⟨last, same, more⟩ := outcome
            exact ⟨last, same, loaded.trans more⟩
      rw [loadLines, readLines]
      unfold loadLine
      rcases readLine line with message | _ | record
      · exact fun heap _ => rfl
      · exact rest [] db (Loaded.refl coherent)
      · exact ((granted_loadRecord coherent record).orError _).bind
          (fun _ => sticky_loadLines lines _) (rest [record])

/-- **What `db_init` makes of a file.** When the operating system provides all it
asks for, it fails only on a file that cannot be read, and otherwise loads the
records in the file. -/
theorem dbInit_spec {dataPath : CString} {file : List UInt8} {env : Environment}
    (fits : dataPath.bytes.length ≤ dbPathLimit) (calm : env.Calm)
    (granted : (dbInit dataPath file env).2.refused = false) :
    LoadedOr (emptyEngine (dataPath.truncate dbPathLimit)) (readFile file)
      (dbInit dataPath file env).1 := by
  unfold dbInit at granted ⊢
  rw [if_neg (Nat.not_lt.mpr fits), calm.lock, calm.opens] at granted ⊢
  exact granted_loadLines (Coherent.empty _) _ env.heap granted

/-- A path that is too long is refused before anything else. -/
theorem dbInit_fits {dataPath : CString} {file : List UInt8} {env : Environment} {db : DbEngine}
    (opened : (dbInit dataPath file env).1 = .ok db) : dataPath.bytes.length ≤ dbPathLimit := by
  by_cases long : dataPath.bytes.length > dbPathLimit
  · rw [dbInit, if_pos long] at opened
    cases opened
  · exact Nat.not_lt.mp long

/-- The engine that `db_init` opens; before the file is read, if it fails. -/
def openedEngine (dataPath : CString) (file : List UInt8) (env : Environment) : DbEngine :=
  match (dbInit dataPath file env).1 with
  | .ok db => db
  | .error _ => emptyEngine (dataPath.truncate dbPathLimit)

/-- An engine that opens is the opened one. -/
theorem dbInit_of_isOk {dataPath : CString} {file : List UInt8} {env : Environment}
    (succeeds : (dbInit dataPath file env).1.isOk = true) :
    (dbInit dataPath file env).1 = .ok (openedEngine dataPath file env) := by
  unfold openedEngine
  cases outcome : (dbInit dataPath file env).1 with
  | error message => rw [outcome] at succeeds; cases succeeds
  | ok db => rfl

/-- An open engine holds what its file holds. -/
theorem dbInit_loaded {dataPath : CString} {file : List UInt8} {env : Environment} {db : DbEngine}
    (calm : env.Calm) (granted : (dbInit dataPath file env).2.refused = false)
    (opened : (dbInit dataPath file env).1 = .ok db) :
    ∃ records, readFile file = .ok records ∧
      Loaded (emptyEngine (dataPath.truncate dbPathLimit)) records db := by
  have spec := dbInit_spec (dbInit_fits opened) calm granted
  rw [opened] at spec
  rcases read : readFile file with message | records
  · rw [read] at spec
    cases spec
  · rw [read] at spec
    obtain ⟨_, same, loaded⟩ := spec
    cases same
    exact ⟨records, rfl, loaded⟩

end MiniDbms.Db
