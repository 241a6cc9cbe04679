import MiniDbms.Db.Restart

/-! # What the loader establishes

`db_insert_internal` relies on the ids in memory being positive and distinct and
on a counter that is nobody's id (`MiniDbms.Db.Prepared`). The loop of `db_init`
neither looks for a repeated id nor stops the counter at `INT_MAX`, so it
establishes this for exactly the files whose ids are distinct and below `INT_MAX`
(`MiniDbms.Db.prepared_iff`).
-/

namespace MiniDbms.Db

open Foundation Util Bptree

/-- The ids that `sscanf` reads from the lines of a file. -/
def fileIds (file : List UInt8) : List Int32 :=
  match readFile file with
  | .ok records => records.map (·.id)
  | .error _ => []

/-- The loop of `db_init` lets only valid records pass. -/
theorem readLines_valid {lines : List (List UInt8)} {records : List Record}
    (read : readLines lines = .ok records) : ∀ record ∈ records, recordIsValid record = true := by
  induction lines generalizing records with
  | nil =>
      cases read
      exact nofun
  | cons line lines ih =>
      rw [readLines] at read
      rcases first : readLine line with _ | found <;> rw [first] at read
      · cases read
      · rcases others : readLines lines with _ | later <;> rw [others] at read
        · cases read
        · cases read
          intro record member
          rcases List.mem_append.mp member with here | after
          · -- The line gave the record, so it passed the checks.
            unfold readLine at first
            split at first
            · cases first
              cases here
            · split at first
              · cases first
              · split at first
                · next valid =>
                    cases first
                    rwa [List.mem_singleton.mp here]
                · cases first
          · exact ih others record after

/-- Short of `INT_MAX`, the counter is above every id it has seen. -/
theorem lt_countedId {rows : List Record} (noTop : intMax ∉ rows.map (·.id)) :
    ∀ record ∈ rows, record.id < countedId rows := by
  induction rows using List.reverseRecOn with
  | nil => exact nofun
  | append_singleton rows record ih =>
      rw [List.map_append, List.mem_append, not_or] at noTop
      intro row member
      rw [countedId_concat]
      rcases List.mem_append.mp member with old | new
      · exact (ih noTop.1 row old).trans_le (le_advancedNextId _ _)
      · rw [List.mem_singleton.mp new]
        exact (lt_advancedNextId _ _).resolve_right fun top =>
          noTop.2 (List.mem_singleton.mpr top.symm)

/-- An automatic insert never moves the counter back, whatever fails. -/
theorem le_nextId_dbInsert (name : CString) (age : Int32) (env : Environment) (store : Store) :
    store.db.nextId ≤ (dbInsert name age env store).store.db.nextId := by
  rcases (dbInsertInternal_outcome false 0 name age env store).left with
    ⟨_, kept⟩ | ⟨_, _, written, _, torn⟩ | ⟨_, grown⟩
  · exact kept.nextId.ge
  · exact torn.nextId.ge
  · rw [dbInsert, grown.nextId]
    exact le_advancedNextId _ _

/-- The calls of a run of automatic inserts. -/
def autoInserts (inserts : List ((CString × Int32) × Environment)) : List (Call × Environment) :=
  inserts.map fun insert => (.insert insert.1.1 insert.1.2, insert.2)

/-- Automatic insertions do not move `next_id` back. -/
theorem le_nextId_autoInserts (inserts : List ((CString × Int32) × Environment)) (store : Store) :
    store.db.nextId ≤ (engineMachine.run store (autoInserts inserts)).2.db.nextId := by
  induction inserts generalizing store with
  | nil => exact le_refl _
  | cons insert inserts ih =>
      exact (le_nextId_dbInsert insert.1.1 insert.1.2 insert.2 store).trans (ih _)

/-- What the inserts rely on in an engine opened on `file`. -/
structure Prepared (file : List UInt8) (db : DbEngine) : Prop where
  positive : ∀ record ∈ db.rows, 0 < record.id
  distinct : (db.rows.map (·.id)).Nodup
  /-- Every successor that `load_record` computed is that of the integers. -/
  noOverflow : ∀ before record after, db.rows = before ++ record :: after →
    before.foldl (fun nextId record => loadedNextId nextId record.id) 1 ≤ record.id →
      (record.id + 1).toInt = record.id.toInt + 1
  nextPos : 0 < db.nextId
  nextUnused : db.nextId ∉ fileIds file
  /-- After any automatic inserts, the next one takes an id that is not in the file. -/
  laterUnused : ∀ inserts name age,
    (insertedRecord (engineMachine.run { db := db, file := file } (autoInserts inserts)).2.db
      false 0 name age).id ∉ fileIds file

/-- **What the loader establishes.** An engine that `db_init` opened on a file is
ready for inserts if and only if the ids in the file are distinct and none of them
is `INT_MAX`. -/
theorem prepared_iff {dataPath : CString} {file : List UInt8} {env : Environment} {db : DbEngine}
    (calm : env.Calm) (granted : (dbInit dataPath file env).2.refused = false)
    (opened : (dbInit dataPath file env).1 = .ok db) :
    Prepared file db ↔ (fileIds file).Nodup ∧ intMax ∉ fileIds file := by
  obtain ⟨records, read, loaded⟩ := dbInit_loaded calm granted opened
  have rows : db.rows = records := loaded.rows
  have ids : fileIds file = records.map (·.id) := by rw [fileIds, read]
  constructor
  · intro prepared
    rw [ids]
    refine ⟨rows ▸ prepared.distinct, fun top => ?_⟩
    obtain ⟨record, stored, same⟩ := List.mem_map.mp top
    obtain ⟨before, after, split⟩ := List.append_of_mem stored
    have wrapped := prepared.noOverflow before record after (rows.trans split)
      (same ▸ le_intMax _)
    rw [same] at wrapped
    exact absurd wrapped (by decide)
  · rintro ⟨distinct, noTop⟩
    rw [ids] at distinct noTop
    have counted : db.nextId = countedId records :=
      loaded.nextId.trans (foldl_loadedNextId noTop)
    have above : ∀ id ∈ fileIds file, id < db.nextId := by
      intro id member
      rw [ids] at member
      obtain ⟨record, stored, rfl⟩ := List.mem_map.mp member
      exact counted ▸ lt_countedId noTop record stored
    exact {
      positive := fun record stored =>
        ((recordIsValid_iff record).mp (readLines_valid read record (rows ▸ stored))).1
      distinct := rows ▸ distinct
      noOverflow := fun before record after split _ => by
        refine toInt_add_one (lt_of_le_of_ne (le_intMax _) fun top => noTop ?_)
        rw [← rows, split]
        exact List.mem_map.mpr ⟨record, List.mem_append_right _ List.mem_cons_self, top⟩
      nextPos := counted ▸ countedId_pos records
      nextUnused := fun member => lt_irrefl _ (above _ member)
      laterUnused := fun inserts name age member => by
        have later := le_nextId_autoInserts inserts { db := db, file := file }
        exact absurd (above _ member) (not_lt.mpr later) }

/-- Ids out of order, with a gap. -/
theorem prepared_iff_unordered :
    let file := ascii "9,ann,30\n2,bob,31\n"
    Prepared file (openedEngine (CString.ofBuffer (ascii "users.csv")) file .calm) :=
  (@prepared_iff (CString.ofBuffer (ascii "users.csv")) (ascii "9,ann,30\n2,bob,31\n") .calm _
    (by decide) (by decide +kernel) (dbInit_of_isOk (by decide +kernel))).mpr (by decide +kernel)

/-- A repeated id is loaded twice, and behind `INT_MAX` the counter is negative. -/
theorem prepared_fails_repeated_and_top :
    let path := CString.ofBuffer (ascii "users.csv")
    let repeated := ascii "7,ann,30\n7,bob,31\n"
    let top := ascii "2147483647,ann,30\n"
    (∃ db, (dbInit path repeated .calm).1 = .ok db ∧ ¬ Prepared repeated db) ∧
      ∃ db, (dbInit path top .calm).1 = .ok db ∧ ¬ Prepared top db := by
  refine ⟨⟨_, dbInit_of_isOk (by decide +kernel), fun prepared => ?_⟩,
    ⟨_, dbInit_of_isOk (by decide +kernel), fun prepared => ?_⟩⟩
  · have distinct := prepared.distinct
    revert distinct
    decide +kernel
  · have positive := prepared.nextPos
    revert positive
    decide +kernel

end MiniDbms.Db
