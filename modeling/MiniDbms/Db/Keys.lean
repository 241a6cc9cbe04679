import MiniDbms.Db.Table

/-! # Ids over whole runs

After any undisturbed run the index answers for every id with the position of its
last row (`MiniDbms.Db.index_over_runs`).

The ids themselves are positive and distinct exactly when the run never asks for
an automatic id while the counter stands at `INT_MAX` and a row already has that
id (`MiniDbms.Db.uniqueKeys_iff`): there the counter no longer advances, and the
insert takes the id a second time.
-/

namespace MiniDbms.Db

open Foundation Util Bptree

/-- **The index agrees with the records.** From any file that `db_init` accepts,
through any undisturbed calls. -/
theorem index_over_runs {dataPath : CString} {file : List UInt8} {env : Environment}
    {db : DbEngine} (calm : env.Calm) (granted : (dbInit dataPath file env).2.refused = false)
    (opened : (dbInit dataPath file env).1 = .ok db) {calls : List (Call × Environment)}
    (undisturbed : engineMachine.Meets Undisturbed { db := db, file := file } calls) (key : Int32) :
    let final := (engineMachine.run { db := db, file := file } calls).2.db
    (bptreeSearch final.index key ≠ none ↔ ∃ record ∈ final.rows, record.id = key) ∧
      (∀ position, bptreeSearch final.index key = some position →
        position < final.count ∧
          ∃ before record after, final.rows = before ++ record :: after ∧
            before.length = position ∧ record.id = key ∧ ∀ later ∈ after, later.id ≠ key) ∧
      final.index.size = (final.rows.map (·.id)).toFinset.card := by
  obtain ⟨records, _, loaded⟩ := dbInit_loaded calm granted opened
  have coherent := engine_coherent loaded.coherent undisturbed
  intro final
  have counted : final.rows.length = final.count := by
    rw [coherent.rows]
    exact coherent.filled
  refine ⟨?_, fun position found => ?_, ?_⟩
  · rw [← Option.isSome_iff_ne_none, coherent.search_isSome, List.mem_map]
  · rw [coherent.search] at found
    obtain ⟨before, record, after, split, placed, same, last⟩ := lookup_positions_split found
    refine ⟨?_, before, record, after, split, placed, same, last⟩
    have counts := congrArg List.length split
    rw [List.length_append, List.length_cons] at counts
    change final.rows.length = _ at counts
    omega
  · rw [coherent.indexed.size, length_ofWrites, map_fst_positions, ← coherent.rows]

/-- A file with a repeated id and an unfinished last line, and two more rows. -/
theorem index_over_runs_repeated :
    let path := CString.ofBuffer (ascii "users.csv")
    let file := ascii "7,ann,30\n7,bob,31\n\n9, eve ,+4"
    let name := CString.ofBuffer (ascii "dan")
    let calls : List (Call × Environment) :=
      [(.insert name 5, .calm), (.insertWithId 8 name 6, .calm)]
    let final := (engineMachine.run
      { db := openedEngine path file .calm, file := file } calls).2.db
    bptreeSearch final.index 7 ≠ none ∧ final.index.size = 4 :=
  have agrees := index_over_runs (by decide) (by decide +kernel)
    (dbInit_of_isOk (by decide +kernel)) (by decide +kernel) 7
  ⟨agrees.1.mpr (by decide +kernel), agrees.2.2.trans (by decide +kernel)⟩

/-- All ids are positive and no two rows share one. -/
def UniqueKeys (rows : List Record) : Prop :=
  (∀ record ∈ rows, 0 < record.id) ∧ (rows.map (·.id)).Nodup

instance (rows : List Record) : Decidable (UniqueKeys rows) := inferInstanceAs (Decidable (_ ∧ _))

/-- The counter can still give out an id that no row has, if the call needs one. -/
def CounterFree (rows : List Record) (nextId : Int32) : Call → Prop
  | .insert name age =>
      0 ≤ age → nameIsValid name.bytes = true → nextId < intMax ∨ intMax ∉ rows.map (·.id)
  | _ => True

instance (rows : List Record) (nextId : Int32) :
    (call : Call) → Decidable (CounterFree rows nextId call)
  | .insert _ _ => inferInstanceAs (Decidable (_ → _ → _ ∨ _))
  | .insertWithId _ _ _ => .isTrue trivial
  | .select _ _ => .isTrue trivial

namespace Table

/-- The counter is above every id, `INT_MAX` excepted. -/
structure Keyed (table : Table) : Prop where
  unique : UniqueKeys table.rows
  nextPos : 0 < table.nextId
  below : ∀ record ∈ table.rows, record.id < table.nextId ∨ record.id = intMax

theorem keyed_empty : Keyed { rows := [], nextId := 1 } :=
  ⟨⟨nofun, List.nodup_nil⟩, by decide, nofun⟩

variable {table : Table} {record : Record}

/-- A row under a fresh positive id keeps the ids unique and the counter above them. -/
theorem Keyed.add (keyed : Keyed table) (positive : 0 < record.id)
    (fresh : record.id ∉ table.rows.map (·.id)) : Keyed (table.add record) where
  unique := by
    refine ⟨fun row member => ?_, ?_⟩
    · rcases List.mem_append.mp member with old | new
      · exact keyed.unique.1 row old
      · rwa [List.mem_singleton.mp new]
    · change ((table.rows ++ [record]).map (·.id)).Nodup
      rw [List.map_append, List.map_cons, List.map_nil, List.nodup_append]
      refine ⟨keyed.unique.2, List.nodup_singleton _, ?_⟩
      rintro id member _ isNew rfl
      rw [List.mem_singleton.mp isNew] at member
      exact fresh member
  nextPos := keyed.nextPos.trans_le (le_advancedNextId _ _)
  below := by
    intro row member
    rcases List.mem_append.mp member with old | new
    · exact (keyed.below row old).imp_left fun smaller => smaller.trans_le (le_advancedNextId _ _)
    · rw [List.mem_singleton.mp new]
      exact lt_advancedNextId _ _

/-- While it is free, the counter is nobody's id. -/
theorem Keyed.nextId_fresh (keyed : Keyed table)
    (free : table.nextId < intMax ∨ intMax ∉ table.rows.map (·.id)) :
    table.nextId ∉ table.rows.map (·.id) := by
  intro member
  obtain ⟨record, stored, same⟩ := List.mem_map.mp member
  rcases keyed.below record stored with smaller | top
  · exact absurd same smaller.ne
  · rcases free with below | absent
    · exact absurd (same.symm.trans top) below.ne
    · exact absent (top ▸ same ▸ member)

/-- An insertion keeps the ids unique while the counter is free. -/
theorem Keyed.insert (keyed : Keyed table) {hasId : Bool} {id : Int32} {name : CString}
    {age : Int32}
    (free : hasId = false → 0 ≤ age → nameIsValid name.bytes = true →
      table.nextId < intMax ∨ intMax ∉ table.rows.map (·.id)) :
    Keyed (table.insert hasId id name age).2 := by
  unfold Table.insert
  split
  · exact keyed
  · next valid =>
      split
      · exact keyed
      · next absent =>
          simp only [not_or, not_and, not_le, not_lt, Bool.not_eq_false] at valid absent
          apply keyed.add
          · cases explicit : hasId with
            | false => exact keyed.nextPos
            | true => exact valid.1 explicit
          · cases explicit : hasId with
            | false => exact keyed.nextId_fresh (free explicit valid.2.1 valid.2.2)
            | true => exact absent explicit

/-- So does every call. -/
theorem Keyed.answer (keyed : Keyed table) {call : Call}
    (free : CounterFree table.rows table.nextId call) : Keyed (table.answer call).2 := by
  cases call with
  | insert name age => exact keyed.insert fun _ => free
  | insertWithId id name age => exact keyed.insert nofun
  | select filter projection => exact keyed

/-- Where the counter is not free, the insert takes `INT_MAX` a second time. -/
theorem not_uniqueKeys_answer {call : Call} (taken : ¬CounterFree table.rows table.nextId call) :
    ¬UniqueKeys (table.answer call).2.rows := by
  cases call with
  | insertWithId id name age => exact absurd trivial taken
  | select filter projection => exact absurd trivial taken
  | insert name age =>
      simp only [CounterFree, not_forall, not_or, not_lt, not_not] at taken
      obtain ⟨nonneg, valid, top, stored⟩ := taken
      have same : table.nextId = intMax := le_antisymm (le_intMax _) top
      have rows : (table.answer (.insert name age)).2.rows =
          table.rows ++ [table.newRecord false 0 name age] := by
        simp only [Table.answer, Table.insert, Bool.false_eq_true, false_and, valid,
          Bool.true_eq_false, or_false, not_lt.mpr nonneg, ↓reduceIte, Table.add]
      rw [rows]
      rintro ⟨_, distinct⟩
      rw [List.map_append, List.nodup_append] at distinct
      exact distinct.2.2 intMax stored intMax (by simp [newRecord, same]) rfl

end Table

/-- No call takes a row away. -/
theorem rows_extend (call : Call) (env : Environment) (store : Store) :
    store.db.rows <+: (call.run env store).store.db.rows := by
  have inserts : ∀ hasId id name age,
      store.db.rows <+: (dbInsertInternal hasId id name age env store).store.db.rows := by
    intro hasId id name age
    rcases (dbInsertInternal_outcome hasId id name age env store).left with
      ⟨_, kept⟩ | ⟨_, _, written, _, torn⟩ | ⟨_, grown⟩
    · rw [kept.rows]
    · rw [torn.rows]
    · exact ⟨_, grown.rows.symm⟩
  cases call with
  | insert name age => exact inserts _ _ _ _
  | insertWithId id name age => exact inserts _ _ _ _
  | select filter projection => exact List.prefix_rfl

/-- Fewer rows have unique ids, too. -/
theorem UniqueKeys.of_earlier {shorter longer : List Record} (initial : shorter <+: longer)
    (unique : UniqueKeys longer) : UniqueKeys shorter :=
  ⟨fun record member => unique.1 record (initial.subset member),
    (initial.sublist.map _).nodup unique.2⟩

/-- **When ids are unique.** From an empty file, an undisturbed run leaves all ids
positive and distinct exactly when every automatic insert finds the counter below
`INT_MAX` or that id unused. -/
theorem uniqueKeys_iff {dataPath : CString} {env : Environment} {db : DbEngine}
    (calm : env.Calm) (granted : (dbInit dataPath [] env).2.refused = false)
    (opened : (dbInit dataPath [] env).1 = .ok db) {calls : List (Call × Environment)}
    (undisturbed : engineMachine.Meets Undisturbed { db := db, file := [] } calls) :
    UniqueKeys (engineMachine.run { db := db, file := [] } calls).2.db.rows ↔
      engineMachine.Meets
        (fun store call => CounterFree store.db.rows store.db.nextId call.1)
        { db := db, file := [] } calls := by
  obtain ⟨coherent, started⟩ := dbInit_empty calm granted opened
  refine engineMachine.run_good_iff
    (fun store => Coherent store.db ∧ store.db.table.Keyed)
    (fun store => UniqueKeys store.db.rows)
    (fun store invariant => invariant.2.unique) ?_ ?_ ?_
    ⟨coherent, started ▸ Table.keyed_empty⟩ undisturbed
  · intro store call invariant quiet free
    obtain ⟨_, next, coherent⟩ := engine_step invariant.1 quiet
    exact ⟨coherent, next ▸ invariant.2.answer free⟩
  · intro store call invariant quiet taken unique
    obtain ⟨_, next, _⟩ := engine_step invariant.1 quiet
    rw [← DbEngine.table_rows, next] at unique
    exact @Table.not_uniqueKeys_answer store.db.table call.1 taken unique
  · intro store call lost unique
    exact lost (unique.of_earlier (rows_extend call.1 call.2 store))

/-- Explicit and automatic ids, up to the last one there is. -/
theorem uniqueKeys_iff_reaching_intMax :
    let path := CString.ofBuffer (ascii "users.csv")
    let name := CString.ofBuffer (ascii "dan")
    let calls : List (Call × Environment) :=
      [(.insertWithId 2147483646 name 5, .calm), (.insertWithId 7 name 6, .calm),
        (.insertWithId 7 name 6, .calm), (.insert name 7, .calm)]
    UniqueKeys (engineMachine.run { db := emptyEngine (path.truncate dbPathLimit), file := [] }
      calls).2.db.rows :=
  (@uniqueKeys_iff (CString.ofBuffer (ascii "users.csv")) .calm _ (by decide) (by decide +kernel)
    rfl _ (by decide +kernel)).mpr (by decide +kernel)

/-- One more automatic insert, and two rows have the id `INT_MAX`. -/
theorem uniqueKeys_fails_at_intMax :
    let path := CString.ofBuffer (ascii "users.csv")
    let name := CString.ofBuffer (ascii "dan")
    let start : Store := { db := emptyEngine (path.truncate dbPathLimit), file := [] }
    let calls : List (Call × Environment) :=
      [(.insertWithId 2147483646 name 5, .calm), (.insert name 6, .calm), (.insert name 7, .calm)]
    (dbInit path [] .calm).1 = .ok start.db ∧
      engineMachine.Meets Undisturbed start calls ∧
      (engineMachine.run start calls).2.db.rows.map (·.id) =
        [2147483646, 2147483647, 2147483647] ∧
      ¬UniqueKeys (engineMachine.run start calls).2.db.rows :=
  ⟨rfl, by decide +kernel, by decide +kernel, by decide +kernel⟩

end MiniDbms.Db
