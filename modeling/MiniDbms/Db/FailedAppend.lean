import MiniDbms.Db.Append
import MiniDbms.Db.Keys

/-! # Appends that fail

A failed append may leave a part of its line in the file. Nothing removes it or ends
the line, so the next record is written behind it. Where every failing append leaves
nothing or its whole line, the file stays a sequence of lines, among them that of
every row (`MiniDbms.Db.Logged`), and the inserts that were answered ok survive a
restart (`MiniDbms.Db.acknowledged_survive`).
-/

namespace MiniDbms.Db

open Foundation Util Bptree

/-- An insert during which nothing fails, except perhaps the append. -/
structure AppendMayFail (store : Store) (call : Call × Environment) : Prop where
  short : call.1.ShortInsert
  lock : call.2.lockFails = false
  opens : call.2.openFails = false
  granted : (call.1.run call.2 store).heap.refused = false

instance (store : Store) (call : Call × Environment) : Decidable (AppendMayFail store call) :=
  decidable_of_iff
    (call.1.ShortInsert ∧ call.2.lockFails = false ∧ call.2.openFails = false ∧
      (call.1.run call.2 store).heap.refused = false)
    ⟨fun all => ⟨all.1, all.2.1, all.2.2.1, all.2.2.2⟩,
      fun may => ⟨may.short, may.lock, may.opens, may.granted⟩⟩

/-- If the insert gets to its append and this fails, nothing was written, or the
whole line. -/
def WholeOrNothing (db : DbEngine) (hasId : Bool) (id : Int32) (name : CString) (age : Int32)
    (env : Environment) : Prop :=
  Accepts db hasId id name age →
    match env.appendFails with
    | none => True
    | some written =>
        written = 0 ∨ (recordLine (insertedRecord db hasId id name age)).length ≤ written

instance (db : DbEngine) (hasId : Bool) (id : Int32) (name : CString) (age : Int32)
    (env : Environment) : Decidable (WholeOrNothing db hasId id name age env) :=
  match fails : env.appendFails with
  | none => .isTrue fun _ => by rw [fails]; trivial
  | some written =>
      decidable_of_iff
        (Accepts db hasId id name age →
          written = 0 ∨ (recordLine (insertedRecord db hasId id name age)).length ≤ written)
        (by rw [WholeOrNothing, fails])

/-- A failing append of the call leaves no part of a line. -/
def LeavesNoPart (store : Store) (call : Call × Environment) : Prop :=
  match call.1 with
  | .insert name age => WholeOrNothing store.db false 0 name age call.2
  | .insertWithId id name age => WholeOrNothing store.db true id name age call.2
  | .select _ _ => True

instance (store : Store) : (call : Call × Environment) → Decidable (LeavesNoPart store call)
  | (.insert _ _, _) => inferInstanceAs (Decidable (WholeOrNothing _ _ _ _ _ _))
  | (.insertWithId _ _ _, _) => inferInstanceAs (Decidable (WholeOrNothing _ _ _ _ _ _))
  | (.select _ _, _) => .isTrue trivial

/-- The file is a sequence of lines, and every row has its line. -/
structure Logged (store : Store) : Prop where
  coherent : Coherent store.db
  nextPos : 0 < store.db.nextId
  lines : ∃ written : List Record, store.file = written.flatMap recordLine ∧
    (∀ record ∈ written, recordIsValid record = true) ∧ store.db.rows ⊆ written

/-- An insertion that leaves no part of a line keeps the file a log of the rows. -/
theorem Logged.insert {store : Store} (logged : Logged store) {hasId : Bool} {id : Int32}
    {name : CString} {age : Int32} {env : Environment} {outcome : Outcome}
    (came : InsertOutcome hasId id name age env store outcome)
    (granted : outcome.heap.refused = false)
    (noPart : WholeOrNothing store.db hasId id name age env) : Logged outcome.store := by
  have coherent := (came.answered logged.coherent granted).1
  have nextPos := logged.nextPos
  obtain ⟨written, file, valid, rows⟩ := logged.lines
  have longer : ∀ record, recordIsValid record = true →
      store.file ++ recordLine record = (written ++ [record]).flatMap recordLine ∧
        (∀ row ∈ written ++ [record], recordIsValid row = true) ∧
          store.db.rows ++ [record] ⊆ written ++ [record] := by
    intro record recordValid
    refine ⟨?_, ?_, ?_⟩
    · rw [file, List.flatMap_append, List.flatMap_cons, List.flatMap_nil, List.append_nil]
    · intro row member
      rcases List.mem_append.mp member with old | new
      · exact valid row old
      · exact List.mem_singleton.mp new ▸ recordValid
    · exact List.append_subset.mpr
        ⟨List.subset_append_of_subset_left _ rows, List.subset_append_right _ _⟩
  rcases came.left with ⟨_, kept⟩ | ⟨_, accepts, count, fails, torn⟩ | ⟨_, grown⟩
  · exact ⟨coherent, kept.nextId ▸ nextPos, written, kept.file.trans file, valid,
      kept.rows ▸ rows⟩
  · have unchanged := torn.nextId ▸ nextPos
    have choice := noPart accepts
    rw [fails] at choice
    rcases choice with nothing | whole
    · refine ⟨coherent, unchanged, written, ?_, valid, torn.rows ▸ rows⟩
      rw [torn.file, nothing, List.take_zero, List.append_nil, file]
    · obtain ⟨fileLonger, validLonger, rowsLonger⟩ := longer _ (torn.valid nextPos)
      refine ⟨coherent, unchanged, _, ?_, validLonger, ?_⟩
      · rw [torn.file, List.take_of_length_le whole, fileLonger]
      · rw [torn.rows]
        exact fun row member => rowsLonger (List.mem_append_left _ member)
  · obtain ⟨fileLonger, validLonger, rowsLonger⟩ := longer _ (grown.valid nextPos)
    refine ⟨coherent, ?_, _, grown.file.trans fileLonger, validLonger, grown.rows ▸ rowsLonger⟩
    rw [grown.nextId]
    exact nextPos.trans_le (le_advancedNextId _ _)

/-- An insert that was answered ok is among the rows, and its row is the answer. -/
def Acknowledged (call : Call × Environment) (answer : DbResult) (rows : List Record) : Prop :=
  answer.ok = true →
    ∃ record ∈ rows, call.1.Inserts record ∧
      answer.rowsJson = some (arrayJson allColumnsProjection.shown [record])

/-- What an insertion acknowledges is among the rows. -/
theorem InsertOutcome.acknowledged {hasId : Bool} {id : Int32} {name : CString} {age : Int32}
    {env : Environment} {store : Store} {outcome : Outcome} {call : Call}
    (came : InsertOutcome hasId id name age env store outcome) (coherent : Coherent store.db)
    (granted : outcome.heap.refused = false)
    (asked : call.Inserts (insertedRecord store.db hasId id name age)) :
    Acknowledged (call, env) outcome.result outcome.store.db.rows := by
  intro ok
  have answered := (came.answered coherent granted).2 ok
  refine ⟨_, ?_, asked, congrArg DbResult.rowsJson answered⟩
  rw [(came.grown_of_ok ok).rows]
  exact List.mem_append_right _ (List.mem_singleton.mpr rfl)

/-- What one insert establishes whose append may fail. -/
theorem Logged.call {store : Store} (logged : Logged store) {call : Call × Environment}
    (may : AppendMayFail store call) (noPart : LeavesNoPart store call) :
    Logged (engineMachine.step store call).2 ∧
      Acknowledged call (engineMachine.step store call).1
        (engineMachine.step store call).2.db.rows := by
  obtain ⟨call, env⟩ := call
  obtain ⟨short, _, _, granted⟩ := may
  cases call with
  | insert name age =>
      have came := dbInsertInternal_outcome false 0 name age env store
      exact ⟨logged.insert came granted noPart,
        came.acknowledged logged.coherent granted ⟨BoundedString.truncate_bytes_of_le short, rfl⟩⟩
  | insertWithId id name age =>
      have came := dbInsertInternal_outcome true id name age env store
      exact ⟨logged.insert came granted noPart,
        came.acknowledged logged.coherent granted
          ⟨rfl, BoundedString.truncate_bytes_of_le short, rfl⟩⟩
  | select filter projection => exact short.elim

/-- **Acknowledged inserts survive.** From an empty file, through any inserts whose
failing appends leave no part of a line, the next `db_init` succeeds, and every
insert that was answered ok is among the loaded records. -/
theorem acknowledged_survive {dataPath : CString} {env : Environment} {db : DbEngine}
    (calm : env.Calm) (granted : (dbInit dataPath [] env).2.refused = false)
    (opened : (dbInit dataPath [] env).1 = .ok db) {calls : List (Call × Environment)}
    (may : engineMachine.Meets AppendMayFail { db := db, file := [] } calls)
    (noPart : engineMachine.Meets LeavesNoPart { db := db, file := [] } calls)
    {again : Environment} (calmAgain : again.Calm)
    (grantedAgain : (dbInit dataPath
      (engineMachine.run { db := db, file := [] } calls).2.file again).2.refused = false) :
    let ran := engineMachine.run { db := db, file := [] } calls
    ∃ reloaded, (dbInit dataPath ran.2.file again).1 = .ok reloaded ∧
      ∀ entry ∈ calls.zip ran.1, Acknowledged entry.1 entry.2 reloaded.rows := by
  have durable := durable_opened calm granted opened
  have logged : Logged { db := db, file := [] } :=
    ⟨durable.coherent, durable.nextPos, _, durable.file, durable.valid, fun _ => id⟩
  have steps := may.and noPart
  have final := engineMachine.run_invariant Logged
    (fun _ _ logged meets => (logged.call meets.1 meets.2).1) logged steps
  have acknowledged := engineMachine.run_established Logged
    (fun call answer store => Acknowledged call answer store.db.rows)
    (fun _ _ logged meets => logged.call meets.1 meets.2)
    (fun store call earlier answer holds ok => by
      obtain ⟨record, stored, asked⟩ := holds ok
      exact ⟨record, (rows_extend call.1 call.2 store).subset stored, asked⟩)
    logged steps
  obtain ⟨written, file, valid, rows⟩ := final.lines
  have spec := dbInit_spec (dbInit_fits opened) calmAgain grantedAgain
  rw [file, readFile_lines valid, ← file] at spec
  obtain ⟨reloaded, reopened, loaded⟩ := spec
  refine ⟨reloaded, reopened, fun entry member ok => ?_⟩
  obtain ⟨record, stored, asked⟩ := acknowledged entry member ok
  exact ⟨record, loaded.rows ▸ rows stored, asked⟩

/-- Two appends fail, one before and one after all of its line was written. -/
theorem acknowledged_survive_two_failures :
    let path := CString.ofBuffer (ascii "users.csv")
    let name := CString.ofBuffer (ascii "ann")
    let fails := fun written : Nat => { Environment.calm with appendFails := some written }
    let calls : List (Call × Environment) :=
      [(.insertWithId 3 name 30, .calm), (.insert name 31, fails 0), (.insert name 32, fails 64),
        (.insert name 33, .calm)]
    let ran := engineMachine.run { db := emptyEngine (path.truncate dbPathLimit), file := [] } calls
    ∃ reloaded, (dbInit path ran.2.file .calm).1 = .ok reloaded ∧
      ∀ entry ∈ calls.zip ran.1, Acknowledged entry.1 entry.2 reloaded.rows :=
  @acknowledged_survive (CString.ofBuffer (ascii "users.csv")) .calm _ (by decide)
    (by decide +kernel) rfl _ (by decide +kernel) (by decide +kernel) .calm (by decide)
    (by decide +kernel)

/-- Five bytes of a line are left behind, the next insert is answered ok, and the file
can no longer be loaded. -/
theorem acknowledged_lost_behind_part :
    let path := CString.ofBuffer (ascii "users.csv")
    let start : Store := { db := emptyEngine (path.truncate dbPathLimit), file := [] }
    let calls : List (Call × Environment) :=
      [(.insertWithId 1 (CString.ofBuffer (ascii "ann")) 30,
          { Environment.calm with appendFails := some 5 }),
        (.insertWithId 2 (CString.ofBuffer (ascii "bob")) 31, .calm)]
    let ran := engineMachine.run start calls
    (dbInit path [] .calm).1 = .ok start.db ∧ engineMachine.Meets AppendMayFail start calls ∧
      ran.1.map DbResult.ok = [false, true] ∧ ran.2.file = ascii "1,ann2,bob,31\n" ∧
      (dbInit path ran.2.file .calm).1 = .error (ascii "malformed data file") := by
  intro path start calls ran
  have left : ran.2.file = ascii "1,ann2,bob,31\n" := by decide +kernel
  refine ⟨rfl, by decide +kernel, by decide +kernel, left, ?_⟩
  have malformed : readFile (ascii "1,ann2,bob,31\n") = .error (ascii "malformed data file") := by
    decide +kernel
  have spec := @dbInit_spec path (ascii "1,ann2,bob,31\n") .calm (by decide) (by decide)
    (by decide +kernel)
  rw [malformed] at spec
  rw [left]
  exact spec

end MiniDbms.Db
