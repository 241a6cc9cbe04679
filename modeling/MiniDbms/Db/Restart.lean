import MiniDbms.Db.Table

/-! # Restarting on the same file

The lines of any list of valid records load as that list
(`MiniDbms.Db.dbInit_lines`). From an empty file, the data file always consists of
the lines of the rows (`MiniDbms.Db.Durable`), so a restart brings back the rows,
and the counter too unless a row has the id `INT_MAX`: `load_record` computes the
successor of that id, which wraps, where an insert leaves the counter alone. A run
whose restarts never meet such a row answers as if it had not been interrupted
(`MiniDbms.Db.restart_transparent`).
-/

namespace MiniDbms.Db

open Foundation Util Bptree

/-- **What was written is loaded.** -/
theorem dbInit_lines {dataPath : CString} {records : List Record} {env : Environment}
    (fits : dataPath.bytes.length ≤ dbPathLimit) (calm : env.Calm)
    (granted : (dbInit dataPath (records.flatMap recordLine) env).2.refused = false)
    (valid : ∀ record ∈ records, 0 < record.id ∧ 0 ≤ record.age ∧ record.name.bytes ≠ [] ∧
      comma ∉ record.name.bytes ∧ lineFeed ∉ record.name.bytes ∧
      carriageReturn ∉ record.name.bytes) :
    ∃ db, (dbInit dataPath (records.flatMap recordLine) env).1 = .ok db ∧
      db.records = records ∧ db.count = records.length := by
  have spec := dbInit_spec fits calm granted
  have readable : ∀ record ∈ records, recordIsValid record = true := by
    intro record member
    rw [recordIsValid_iff, nameIsValid_iff]
    exact valid record member
  rw [readFile_lines readable] at spec
  obtain ⟨db, opened, loaded⟩ := spec
  have held : db.records = records := loaded.coherent.rows.symm.trans loaded.rows
  exact ⟨db, opened, held, loaded.coherent.filled.symm.trans (congrArg List.length held)⟩

/-- Blanks around a name, a control byte and bytes above the ASCII range. -/
theorem dbInit_lines_odd_names :
    let name := fun bytes : List UInt8 => (CString.ofBuffer bytes).truncate dbNameLimit
    let records : List Record :=
      [{ id := 2147483647, name := name [32, 97, 32], age := 0 },
        { id := 1, name := name [1, 200, 255], age := 2147483647 }]
    ∃ db, (dbInit (CString.ofBuffer (ascii "users.csv")) (records.flatMap recordLine) .calm).1 =
        .ok db ∧ db.records = records ∧ db.count = records.length :=
  dbInit_lines (by decide) (by decide) (by decide +kernel) (by decide +kernel)

/-- `db_destroy` and then `db_init` on the same path: the text of the error, if
there is one. -/
def restart (env : Environment) (store : Store) : Option (List UInt8) × Store × Heap :=
  let db := dbDestroy store.db
  match dbInit db.dataPath.toCString store.file env with
  | (.ok db, heap) => (none, { db := db, file := store.file }, heap)
  | (.error message, heap) => (some message, { db := db, file := store.file }, heap)

theorem restart_heap (env : Environment) (store : Store) :
    (restart env store).2.2 = (dbInit store.db.dataPath.toCString store.file env).2 := by
  simp only [restart, dbDestroy]
  rcases dbInit store.db.dataPath.toCString store.file env with ⟨_ | db, heap⟩ <;> rfl

/-- A restart that succeeds goes on with the opened engine. -/
theorem restart_of_opened {env : Environment} {store : Store} {db : DbEngine}
    (opened : (dbInit store.db.dataPath.toCString store.file env).1 = .ok db) :
    restart env store = (none, { db := db, file := store.file },
      (dbInit store.db.dataPath.toCString store.file env).2) := by
  simp only [restart, dbDestroy]
  rcases ran : dbInit store.db.dataPath.toCString store.file env with ⟨_ | _, heap⟩ <;>
    rw [ran] at opened <;> cases opened
  rfl

inductive Event where
  | call (call : Call)
  | restart

/-- The call of an event. -/
def Event.call? : Event → Option Call
  | .call made => some made
  | .restart => none

inductive Answer where
  | result (result : DbResult)
  | restarted (error : Option (List UInt8))
  deriving DecidableEq

/-- The result of a call. -/
def Answer.result? : Answer → Option DbResult
  | .result given => some given
  | .restarted _ => none

/-- Calls and restarts. -/
def serviceMachine : Machine Store (Event × Environment) Answer where
  step store event :=
    match event.1 with
    | .call call =>
        let outcome := call.run event.2 store
        (.result outcome.result, outcome.store)
    | .restart =>
        let (error, next, _) := restart event.2 store
        (.restarted error, next)

/-- The operating system provides all that the event asks for. -/
def Quiet (store : Store) (event : Event × Environment) : Prop :=
  match event.1 with
  | .call call => Undisturbed store (call, event.2)
  | .restart => event.2.Calm ∧ (restart event.2 store).2.2.refused = false

instance (store : Store) : (event : Event × Environment) → Decidable (Quiet store event)
  | (.call call, env) => inferInstanceAs (Decidable (Undisturbed store (call, env)))
  | (.restart, _) => inferInstanceAs (Decidable (_ ∧ _))

/-- A restart does not meet a row with the id `INT_MAX`. -/
def NoTopRow (store : Store) (event : Event × Environment) : Prop :=
  match event.1 with
  | .call _ => True
  | .restart => intMax ∉ store.db.rows.map (·.id)

instance (store : Store) : (event : Event × Environment) → Decidable (NoTopRow store event)
  | (.call _, _) => .isTrue trivial
  | (.restart, _) => inferInstanceAs (Decidable (_ ∉ _))

/-- The counter that inserting the rows leaves. -/
def countedId (rows : List Record) : Int32 :=
  rows.foldl (fun nextId record => advancedNextId nextId record.id) 1

theorem countedId_concat (rows : List Record) (record : Record) :
    countedId (rows ++ [record]) = advancedNextId (countedId rows) record.id := by
  simp only [countedId, List.foldl_append, List.foldl_cons, List.foldl_nil]

/-- The counter is positive. -/
theorem countedId_pos (rows : List Record) : 0 < countedId rows := by
  induction rows using List.reverseRecOn with
  | nil => decide
  | append_singleton rows record ih =>
      rw [countedId_concat]
      exact ih.trans_le (le_advancedNextId _ _)

/-- Loading computes the same counter as inserting, short of `INT_MAX`. -/
theorem foldl_loadedNextId {rows : List Record} (noTop : intMax ∉ rows.map (·.id)) :
    rows.foldl (fun nextId record => loadedNextId nextId record.id) 1 = countedId rows := by
  induction rows using List.reverseRecOn with
  | nil => rfl
  | append_singleton rows record ih =>
      rw [List.map_append, List.mem_append, not_or] at noTop
      have below : record.id < intMax := by
        refine lt_of_le_of_ne (le_intMax _) fun top => noTop.2 ?_
        exact List.mem_singleton.mpr top.symm
      rw [List.foldl_append, ih noTop.1, countedId_concat]
      simp only [List.foldl_cons, List.foldl_nil, loadedNextId, advancedNextId, below, and_true]

/-- The file consists of the lines of the rows, which determine the counter. -/
structure Durable (store : Store) : Prop where
  coherent : Coherent store.db
  file : store.file = store.db.rows.flatMap recordLine
  valid : ∀ record ∈ store.db.rows, recordIsValid record = true
  nextId : store.db.nextId = countedId store.db.rows

namespace Durable

variable {store next : Store}

theorem nextPos (durable : Durable store) : 0 < store.db.nextId :=
  durable.nextId ▸ countedId_pos _

/-- A store that was kept is durable. -/
theorem kept (durable : Durable store) (kept : Kept store next) (coherent : Coherent next.db) :
    Durable next where
  coherent := coherent
  file := by rw [kept.file, kept.rows, durable.file]
  valid := by rw [kept.rows]; exact durable.valid
  nextId := by rw [kept.nextId, kept.rows, durable.nextId]

/-- So is one with another record. -/
theorem grown (durable : Durable store) {record : Record} (grown : Grown store record next)
    (coherent : Coherent next.db) : Durable next where
  coherent := coherent
  file := by
    rw [grown.file, grown.rows, durable.file, List.flatMap_append, List.flatMap_cons,
      List.flatMap_nil, List.append_nil]
  valid := by
    intro row member
    rw [grown.rows] at member
    rcases List.mem_append.mp member with old | new
    · exact durable.valid row old
    · rw [List.mem_singleton.mp new]
      exact grown.valid durable.nextPos
  nextId := by rw [grown.nextId, grown.rows, countedId_concat, durable.nextId]

/-- An undisturbed call leaves the store durable. -/
theorem call (durable : Durable store) {call : Call × Environment}
    (undisturbed : Undisturbed store call) : Durable (engineMachine.step store call).2 := by
  have coherent := (engine_step durable.coherent undisturbed).2.2
  rcases call.1.kept_or_grown undisturbed.calm.appends store with kept | ⟨record, grown⟩
  · exact durable.kept kept coherent
  · exact durable.grown grown coherent

/-- A restart brings back the rows and the counter. -/
theorem restart (durable : Durable store) {env : Environment} (calm : env.Calm)
    (granted : (restart env store).2.2.refused = false)
    (noTop : intMax ∉ store.db.rows.map (·.id)) :
    (restart env store).1 = none ∧ Durable (restart env store).2.1 ∧
      (restart env store).2.1.db.table = store.db.table := by
  rw [restart_heap] at granted
  have spec := dbInit_spec store.db.dataPath.fits calm granted
  rw [durable.file, readFile_lines durable.valid, ← durable.file] at spec
  obtain ⟨db, opened, loaded⟩ := spec
  have rows : db.rows = store.db.rows := loaded.rows
  have nextId : db.nextId = store.db.nextId :=
    (loaded.nextId.trans (foldl_loadedNextId noTop)).trans durable.nextId.symm
  rw [restart_of_opened opened]
  refine ⟨rfl, ⟨loaded.coherent, ?_, ?_, ?_⟩, ?_⟩
  · exact durable.file.trans (congrArg _ rows.symm)
  · exact fun record member => durable.valid record (rows ▸ member)
  · exact (nextId.trans durable.nextId).trans (congrArg countedId rows.symm)
  · exact congrArg₂ Table.mk rows nextId

end Durable

/-- A service does on durable stores what the table does, and its restarts go
unnoticed. -/
theorem service_step {store : Store} (durable : Durable store) {event : Event × Environment}
    (quiet : Quiet store event) (safe : NoTopRow store event) :
    Durable (serviceMachine.step store event).2 ∧
      match event.1 with
      | .call call =>
          (serviceMachine.step store event).1 = .result (store.db.table.answer call).1 ∧
            (serviceMachine.step store event).2.db.table = (store.db.table.answer call).2
      | .restart =>
          (serviceMachine.step store event).1 = .restarted none ∧
            (serviceMachine.step store event).2.db.table = store.db.table := by
  obtain ⟨_ | call, env⟩ := event
  · next call =>
      obtain ⟨answered, next, _⟩ := engine_step durable.coherent quiet
      exact ⟨durable.call quiet, congrArg Answer.result answered, next⟩
  · obtain ⟨succeeded, next, same⟩ := durable.restart quiet.1 quiet.2 safe
    exact ⟨next, congrArg Answer.restarted succeeded, same⟩

/-- An engine opened on an empty file is durable. -/
theorem durable_opened {dataPath : CString} {env : Environment} {db : DbEngine} (calm : env.Calm)
    (granted : (dbInit dataPath [] env).2.refused = false)
    (opened : (dbInit dataPath [] env).1 = .ok db) : Durable { db := db, file := [] } := by
  obtain ⟨coherent, started⟩ := dbInit_empty calm granted opened
  have rows : db.rows = [] := congrArg Table.rows started
  have nextId : db.nextId = 1 := congrArg Table.nextId started
  exact ⟨coherent, by rw [rows]; rfl, by rw [rows]; exact nofun, by rw [rows]; exact nextId⟩

/-- **Restarts are transparent.** From an empty file, when no restart meets a row
with the id `INT_MAX`, every restart succeeds, the calls are answered as in the run
without restarts, and rows and counter end up the same. -/
theorem restart_transparent {dataPath : CString} {env : Environment} {db : DbEngine}
    (calm : env.Calm) (granted : (dbInit dataPath [] env).2.refused = false)
    (opened : (dbInit dataPath [] env).1 = .ok db) {events : List (Event × Environment)}
    (quiet : serviceMachine.Meets Quiet { db := db, file := [] } events)
    (safe : serviceMachine.Meets NoTopRow { db := db, file := [] } events)
    {calls : List (Call × Environment)}
    (undisturbed : engineMachine.Meets Undisturbed { db := db, file := [] } calls)
    (sameCalls : calls.map Prod.fst = events.filterMap fun event => event.1.call?) :
    let restarted := serviceMachine.run { db := db, file := [] } events
    let straight := engineMachine.run { db := db, file := [] } calls
    (∀ answer ∈ restarted.1, ∀ message, answer ≠ .restarted (some message)) ∧
      restarted.1.filterMap Answer.result? = straight.1 ∧
      restarted.2.db.rows = straight.2.db.rows ∧
      restarted.2.db.nextId = straight.2.db.nextId := by
  have durable := durable_opened calm granted opened
  have good := quiet.and safe
  have straight := engine_refines_table durable.coherent undisturbed
  have restarted := serviceMachine.run_simulates Table.machine
    (fun store table => Durable store ∧ store.db.table = table)
    (fun event => event.1.call?) Answer.result?
    (by
      rintro store _ ⟨event, env⟩ ⟨durable, rfl⟩ ⟨quiet, safe⟩ hidden
      obtain ⟨next, came⟩ := service_step durable quiet safe
      cases event with
      | call call => cases hidden
      | restart => exact ⟨congrArg Answer.result? came.1, next, came.2⟩)
    (by
      rintro store _ ⟨event, env⟩ call ⟨durable, rfl⟩ ⟨quiet, safe⟩ visible
      obtain ⟨next, came⟩ := service_step durable quiet safe
      cases event with
      | call made =>
          cases visible
          exact ⟨congrArg Answer.result? came.1, next, came.2⟩
      | restart => cases visible)
    ⟨durable, rfl⟩ good
  rw [← sameCalls] at restarted
  have ends := restarted.2.2.trans straight.2.symm
  refine ⟨?_, restarted.1.trans straight.1.symm, congrArg Table.rows ends,
    congrArg Table.nextId ends⟩
  refine serviceMachine.run_outputs Durable ?_ durable good
  rintro store ⟨event, env⟩ durable ⟨quiet, safe⟩
  obtain ⟨next, came⟩ := service_step durable quiet safe
  refine ⟨fun message failed => ?_, next⟩
  cases event with
  | call call => cases came.1.symm.trans failed
  | restart => cases came.1.symm.trans failed

/-- Two restarts, one of them before an automatic id is given out. -/
theorem restart_transparent_twice :
    let path := CString.ofBuffer (ascii "users.csv")
    let name := CString.ofBuffer (ascii "dan")
    let all : DbFilter := { type := .all, id := 0, name := name.truncate dbNameLimit }
    let start : Store := { db := emptyEngine (path.truncate dbPathLimit), file := [] }
    let first : Call := .insertWithId 5 name 30
    let second : Call := .insert name 31
    let third : Call := .select all allColumnsProjection
    (serviceMachine.run start [(.call first, .calm), (.restart, .calm), (.call second, .calm),
        (.restart, .calm), (.call third, .calm)]).1.filterMap Answer.result? =
      (engineMachine.run start [(first, .calm), (second, .calm), (third, .calm)]).1 :=
  (@restart_transparent (CString.ofBuffer (ascii "users.csv")) .calm _ (by decide)
    (by decide +kernel) rfl _ (by decide +kernel) (by decide +kernel) _ (by decide +kernel)
    rfl).2.1

/-- After a restart that met the id `INT_MAX`, the next automatic id is `INT_MIN`
instead of 1, and the restart after that fails. -/
theorem restart_wraps_nextId :
    let path := CString.ofBuffer (ascii "users.csv")
    let name := CString.ofBuffer (ascii "dan")
    let start : Store := { db := emptyEngine (path.truncate dbPathLimit), file := [] }
    let first : Call := .insertWithId 2147483647 name 30
    let second : Call := .insert name 31
    let events : List (Event × Environment) :=
      [(.call first, .calm), (.restart, .calm), (.call second, .calm), (.restart, .calm)]
    let calls : List (Call × Environment) := [(first, .calm), (second, .calm)]
    let restarted := serviceMachine.run start events
    let straight := engineMachine.run start calls
    (dbInit path [] .calm).1 = .ok start.db ∧
      serviceMachine.Meets Quiet start events ∧ engineMachine.Meets Undisturbed start calls ∧
      calls.map Prod.fst = events.filterMap (fun event => event.1.call?) ∧
      restarted.1.filterMap Answer.result? ≠ straight.1 ∧
      .restarted (some (ascii "invalid record in data file")) ∈ restarted.1 ∧
      (serviceMachine.run start (events.take 2)).2.db.nextId = Int32.minValue ∧
      (serviceMachine.run start (events.take 1)).2.db.nextId = 1 := by
  refine ⟨rfl, ?_, ?_, rfl, ?_, ?_, ?_, ?_⟩ <;> decide +kernel

end MiniDbms.Db
