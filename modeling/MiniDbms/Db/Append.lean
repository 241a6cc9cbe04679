import MiniDbms.Db.Restart

/-! # Appending to a file

An insert writes its line behind whatever the file ends with. If the file ends
where a line ends, the line is read back as a line of its own; otherwise the reader
takes the last line and the new one together, and some record is lost or changed
(`MiniDbms.Db.readFile_append_iff`). That decides which files can be appended to
(`MiniDbms.Db.appended_loads_iff`), and why a failed append that left part of its
line behind can cost the records written after it
(`MiniDbms.Db.acknowledged_survive`).
-/

namespace MiniDbms.Db

open Foundation Util Bptree

/-- A scanned record starts with its id, and two commas follow. -/
theorem scanRecord_spec {text : List UInt8} {record : Record}
    (scanned : scanRecord text = some record) :
    2 ≤ text.count comma ∧
      ∃ value rest, strtol text = some (value, rest) ∧ record.id = intOfLong value := by
  simp only [scanRecord, Option.bind_eq_bind, Option.bind_eq_some_iff, Prod.exists,
    Option.pure_def, Option.some.injEq] at scanned
  obtain ⟨id, afterId, readId, fromName, firstComma, name, afterName, readName, fromAge,
    secondComma, age, _, _, rfl⟩ := scanned
  refine ⟨?_, id, afterId, readId, rfl⟩
  have nameRest : afterName <:+ fromName := by
    unfold scanName at readName
    dsimp only at readName
    split at readName
    · cases readName
    · cases readName
      exact List.drop_suffix _ _
  calc 2 ≤ 1 + (fromAge.count comma + 1) := by omega
    _ = 1 + afterName.count comma := by
      rw [matchByte_eq_some_iff.mp secondComma, List.count_cons_self]
    _ ≤ 1 + fromName.count comma := Nat.add_le_add_left (nameRest.sublist.count_le _) 1
    _ = afterId.count comma := by
      rw [matchByte_eq_some_iff.mp firstComma, List.count_cons_self, Nat.add_comm]
    _ ≤ text.count comma := (strtol_suffix readId).sublist.count_le _

/-- A line with a record was scanned for it. -/
theorem readLine_eq_some {line : List UInt8} {record : Record}
    (read : readLine line = .ok (some record)) :
    scanRecord (CString.ofBuffer line).bytes = some record := by
  unfold readLine at read
  split at read
  · cases read
  · split at read
    · cases read
    · next scanned =>
        split at read
        · cases read
          exact scanned
        · cases read

/-- Whether a line is skipped depends on its first byte alone. -/
theorem length_readLine {line : List UInt8} {found : Option Record}
    (read : readLine line = .ok found) :
    found.toList.length = if line.headD 0 = lineFeed ∨ line.headD 0 = 0 then 0 else 1 := by
  unfold readLine at read
  split at read
  · next skipped =>
      rw [if_pos skipped]
      cases read
      rfl
  · next kept =>
      rw [if_neg kept]
      split at read
      · cases read
      · split at read
        · cases read
          rfl
        · cases read

/-- A number that lost its first digits is read as another one. -/
theorem strtol_cut {value : Int32} (positive : 0 < value.toInt) {front back rest : List UInt8}
    (split : formatInt value.toInt = front ++ back) (lost : front ≠ []) (left : back ≠ [])
    (stop : NoDigitFirst rest) :
    ∃ read, strtol (back ++ rest) = some (read, rest) ∧ intOfLong read ≠ value := by
  have upper := value.toInt_lt
  rw [formatInt, if_neg (by omega)] at split
  have smaller := numeralValue_lt_of_decimal_eq_append (by omega) split lost
  have digits : ∀ byte ∈ back, isDigit byte = true := fun byte member =>
    isDigit_of_mem_decimal _ byte (split ▸ List.mem_append_right front member)
  have inLong : clampLong (numeralValue back) = numeralValue back := by
    unfold clampLong
    omega
  refine ⟨_, strtol_digits left digits stop, fun same => ?_⟩
  have sameInt := congrArg Int32.toInt same
  rw [inLong, intOfLong, Int32.toInt_ofInt_of_le (by omega) (by omega)] at sameInt
  omega

/-- No number starts with a comma. -/
theorem strtol_comma (text : List UInt8) : strtol (comma :: text) = none := by
  simp [strtol, readSign, isSpace, isDigit, comma, minusSign, plusSign]

/-- Behind the first comma of a line there is one more. -/
theorem count_comma_afterId {record : Record} (valid : recordIsValid record = true) :
    (record.name.bytes ++ comma :: formatInt record.age.toInt).count comma = 1 := by
  obtain ⟨_, ageNonneg, nameValid⟩ := (recordIsValid_iff record).mp valid
  obtain ⟨_, noComma, _, _⟩ := (nameIsValid_iff _).mp nameValid
  have noAge : comma ∉ formatInt record.age.toInt := fun member =>
    absurd (isDigit_of_mem_formatInt ageNonneg comma member) (by decide)
  rw [List.count_append, List.count_cons_self, List.count_eq_zero.mpr noComma,
    List.count_eq_zero.mpr noAge]

/-- The end of a written line is not read as the record of the whole line. -/
theorem readLine_cut {record : Record} (valid : recordIsValid record = true)
    {front back : List UInt8} (split : recordText record = front ++ back) (nonempty : front ≠ []) :
    readLine (back ++ [lineFeed]) ≠ .ok (some record) := by
  intro read
  have natural := toInt_pos ((recordIsValid_iff record).mp valid).1
  have fewCommas := count_comma_afterId valid
  have whole : (CString.ofBuffer (back ++ [lineFeed])).bytes = back ++ [lineFeed] := by
    apply List.takeWhile_eq_self_iff.mpr
    intro byte member
    rw [bne_iff_ne]
    rintro rfl
    apply zero_not_mem_recordLine valid
    rw [recordLine_eq, split, List.append_assoc]
    exact List.mem_append_right front member
  have scanned := readLine_eq_some read
  rw [whole] at scanned
  obtain ⟨commas, value, rest, readId, sameId⟩ := scanRecord_spec scanned
  have noDigits : ∀ more, back = comma :: more → False := by
    intro more same
    rw [same, List.cons_append, strtol_comma] at readId
    cases readId
  have feedless : (back ++ [lineFeed]).count comma = back.count comma := by
    rw [List.count_append]
    rfl
  unfold recordText at split
  rcases List.append_eq_append_iff.mp split with ⟨cut, frontSame, more⟩ | ⟨cut, digits, backSame⟩
  · -- The id is gone.
    cases cut with
    | nil => exact noDigits _ more.symm
    | cons byte cut =>
        rw [List.cons_append, List.cons.injEq] at more
        have suffix : back <:+ record.name.bytes ++ comma :: formatInt record.age.toInt :=
          ⟨cut, more.2.symm⟩
        have few := suffix.sublist.count_le comma
        omega
  · -- Some digits of the id may be left.
    cases cut with
    | nil => exact noDigits _ backSame
    | cons digit cut =>
        obtain ⟨read, readBack, changed⟩ := strtol_cut natural digits nonempty
          (List.cons_ne_nil digit cut) (noDigitFirst_cons comma (by decide) _)
        rw [backSame, List.append_assoc] at readId
        cases readBack.symm.trans readId
        exact changed sameId.symm

/-- Lines that are read are read part by part. -/
theorem readLines_append_ok {first second : List (List UInt8)} {records : List Record}
    (read : readLines (first ++ second) = .ok records) :
    ∃ before after, readLines first = .ok before ∧ readLines second = .ok after ∧
      records = before ++ after := by
  rw [readLines_append] at read
  cases one : readLines first with
  | error message => rw [one] at read; cases read
  | ok before =>
      cases two : readLines second with
      | error message => rw [one, two] at read; cases read
      | ok after =>
          rw [one, two] at read
          cases read
          exact ⟨before, after, rfl, rfl, rfl⟩

/-- One line gives at most one record. -/
theorem readLines_singleton {line : List UInt8} {records : List Record}
    (read : readLines [line] = .ok records) :
    ∃ found, readLine line = .ok found ∧ records = found.toList := by
  rw [readLines] at read
  cases one : readLine line with
  | error message => rw [one] at read; cases read
  | ok found =>
      rw [one] at read
      cases read
      exact ⟨found, rfl, List.append_nil _⟩

theorem headD_append {front : List UInt8} (nonempty : front ≠ []) (back : List UInt8) :
    (front ++ back).headD 0 = front.headD 0 := by
  obtain ⟨byte, front, rfl⟩ := List.exists_cons_of_ne_nil nonempty
  rfl

/-- How the reader takes a written line that starts behind an unfinished one:
whole, or cut where the buffer is full. -/
theorem completed_behind {record : Record} (valid : recordIsValid record = true)
    {pending : List UInt8} (short : pending.length < lineLimit) :
    unfinished lineLimit pending (recordLine record) = [] ∧
      (completed lineLimit pending (recordLine record) = [pending ++ recordLine record] ∨
        ∃ front back, recordText record = front ++ back ∧ front ≠ [] ∧
          completed lineLimit pending (recordLine record) =
            [pending ++ front, back ++ [lineFeed]]) := by
  have plain := lineFeed_not_mem_recordText valid
  have bounded := length_recordText_le valid
  rw [recordLine_eq]
  rcases Nat.lt_or_ge (pending.length + (recordText record).length) lineLimit with fits | long
  · obtain ⟨line, ended⟩ := completed_line plain fits
    exact ⟨ended, .inl (line.trans (by rw [List.append_assoc]))⟩
  · have halves := List.take_append_drop (lineLimit - pending.length) (recordText record)
    set front := (recordText record).take (lineLimit - pending.length) with isFront
    set back := (recordText record).drop (lineLimit - pending.length) with isBack
    have frontLength : front.length = lineLimit - pending.length := by
      rw [isFront, List.length_take]
      omega
    have backLength : back.length ≤ 149 := by
      rw [isBack, List.length_drop]
      omega
    rw [← halves, List.mem_append, not_or] at plain
    have nonempty : front ≠ [] := by
      intro none
      rw [none, List.length_nil] at frontLength
      omega
    obtain ⟨full, emptied⟩ := @completed_full lineLimit pending front plain.1 nonempty (by omega)
    obtain ⟨line, ended⟩ := @completed_line lineLimit [] back plain.2 (by
      rw [List.length_nil, lineLimit]
      omega)
    rw [← halves, List.append_assoc, unfinished_append, completed_append, emptied, full, line]
    exact ⟨ended, .inr ⟨front, back, rfl, nonempty, rfl⟩⟩

/-- Where a line ends inside a buffer that was not empty, the reader does not find
what was there followed by the new record. -/
theorem seam_lost {record : Record} (valid : recordIsValid record = true)
    {pending : List UInt8} (nonempty : pending ≠ []) (short : pending.length < lineLimit)
    {found : Option Record} (read : readLine pending = .ok found) :
    readLines (completed lineLimit pending (recordLine record)) ≠
      .ok (found.toList ++ [record]) := by
  intro readSeam
  -- A line and its continuation are skipped or read together.
  have together : ∀ (continued : List UInt8) (taken : Option Record),
      readLine (pending ++ continued) = .ok taken → taken.toList.length = found.toList.length := by
    intro continued taken readTaken
    rw [length_readLine readTaken, length_readLine read, headD_append nonempty]
  rcases (completed_behind valid short).2 with whole | ⟨start, finish, cut, started, parts⟩
  · rw [whole] at readSeam
    obtain ⟨taken, readTaken, same⟩ := readLines_singleton readSeam
    have counts := together _ _ readTaken
    rw [← same, List.length_append, List.length_singleton] at counts
    omega
  · rw [parts, ← List.singleton_append] at readSeam
    obtain ⟨one, two, readOne, readTwo, same⟩ := readLines_append_ok readSeam
    obtain ⟨taken, readTaken, rfl⟩ := readLines_singleton readOne
    obtain ⟨final, readFinal, rfl⟩ := readLines_singleton readTwo
    have isRecord := (List.append_inj same.symm (together _ _ readTaken)).2
    cases final with
    | none => cases isRecord
    | some last =>
        cases isRecord
        exact readLine_cut valid cut started readFinal

/-- **Which files can be appended to.** Lines written behind a file that can be read
are read back behind its records exactly when the file ends where a line ends. -/
theorem readFile_append_iff {file : List UInt8} {records : List Record} {record : Record}
    {more : List Record} (read : readFile file = .ok records)
    (valid : ∀ written ∈ record :: more, recordIsValid written = true) :
    readFile (file ++ (record :: more).flatMap recordLine) = .ok (records ++ record :: more) ↔
      unfinished lineLimit [] file = [] := by
  constructor
  · intro reread
    by_contra pendingBytes
    obtain ⟨_, short⟩ :=
      @unfinished_spec lineLimit [] file List.not_mem_nil (by decide)
    have first := valid record List.mem_cons_self
    obtain ⟨ended, _⟩ := completed_behind first short
    rw [readFile, chunks, chunksFrom_eq, if_neg pendingBytes] at read
    obtain ⟨front, last, readFront, readLast, rfl⟩ := readLines_append_ok read
    obtain ⟨found, readPending, rfl⟩ := readLines_singleton readLast
    rw [readFile, chunks, chunksFrom_append, List.flatMap_cons, chunksFrom_append, ended] at reread
    obtain ⟨front', middle, readFront', readMiddle, split⟩ := readLines_append_ok reread
    obtain ⟨seam, rest, readSeam, readRest, rfl⟩ := readLines_append_ok readMiddle
    cases readFront.symm.trans readFront'
    cases readRest.symm.trans
      (readFile_lines fun later member => valid later (List.mem_cons_of_mem record member))
    have joined : seam = found.toList ++ [record] := by
      rw [List.append_assoc] at split
      have tail := List.append_cancel_left split
      rw [List.append_cons] at tail
      exact (List.append_cancel_right tail).symm
    apply seam_lost first pendingBytes short readPending
    rw [readSeam, joined]
  · intro ended
    rw [readFile_append ended, read, readFile_lines valid]
    rfl

/-- An insert of a name that fits its buffer. -/
def Call.ShortInsert : Call → Prop
  | .insert name _ => name.bytes.length ≤ dbNameLimit
  | .insertWithId _ name _ => name.bytes.length ≤ dbNameLimit
  | .select _ _ => False

/-- The record has what the insert asked for. -/
def Call.Inserts (record : Record) : Call → Prop
  | .insert name age => record.name.bytes = name.bytes ∧ record.age = age
  | .insertWithId id name age =>
      record.id = id ∧ record.name.bytes = name.bytes ∧ record.age = age
  | .select _ _ => False

instance : (call : Call) → Decidable call.ShortInsert
  | .insert _ _ => inferInstanceAs (Decidable (_ ≤ _))
  | .insertWithId _ _ _ => inferInstanceAs (Decidable (_ ≤ _))
  | .select _ _ => .isFalse id

/-- The call is an insert that answers ok. -/
structure Succeeds (store : Store) (call : Call × Environment) : Prop where
  short : call.1.ShortInsert
  ok : (engineMachine.step store call).1.ok = true

instance (store : Store) (call : Call × Environment) : Decidable (Succeeds store call) :=
  decidable_of_iff (call.1.ShortInsert ∧ (engineMachine.step store call).1.ok = true)
    ⟨fun both => ⟨both.1, both.2⟩, fun succeeds => ⟨succeeds.short, succeeds.ok⟩⟩

/-- The rows an insert that answers ok adds, in any surroundings. -/
theorem Succeeds.grown {store : Store} {call : Call × Environment}
    (succeeds : Succeeds store call) :
    ∃ record, call.1.Inserts record ∧ Grown store record (engineMachine.step store call).2 := by
  obtain ⟨call, env⟩ := call
  obtain ⟨short, ok⟩ := succeeds
  cases call with
  | insert name age =>
      exact ⟨_, ⟨BoundedString.truncate_bytes_of_le short, rfl⟩,
        (dbInsertInternal_outcome false 0 name age env store).grown_of_ok ok⟩
  | insertWithId id name age =>
      exact ⟨_, ⟨rfl, BoundedString.truncate_bytes_of_le short, rfl⟩,
        (dbInsertInternal_outcome true id name age env store).grown_of_ok ok⟩
  | select filter projection => exact short.elim

/-- What a run of successful inserts leaves. -/
theorem succeeds_run {store : Store} {calls : List (Call × Environment)}
    (nextPos : 0 < store.db.nextId) (succeed : engineMachine.Meets Succeeds store calls) :
    ∃ inserted,
      List.Forall₂ (fun call record => call.Inserts record) (calls.map Prod.fst) inserted ∧
      (∀ record ∈ inserted, recordIsValid record = true) ∧
      (engineMachine.run store calls).2.file = store.file ++ inserted.flatMap recordLine ∧
      (engineMachine.run store calls).2.db.rows = store.db.rows ++ inserted := by
  induction calls generalizing store with
  | nil =>
      exact ⟨[], .nil, nofun, (List.append_nil _).symm, (List.append_nil _).symm⟩
  | cons call calls ih =>
      obtain ⟨record, asked, grown⟩ := succeed.1.grown
      have nextPos' : 0 < (engineMachine.step store call).2.db.nextId := by
        rw [grown.nextId]
        exact nextPos.trans_le (le_advancedNextId _ _)
      obtain ⟨inserted, all, valid, file, rows⟩ := ih nextPos' succeed.2
      refine ⟨record :: inserted, .cons asked all, ?_, ?_, ?_⟩
      · intro row member
        rcases List.mem_cons.mp member with rfl | later
        · exact grown.valid nextPos
        · exact valid row later
      · rw [Machine.run_cons, file, grown.file, List.append_assoc, List.flatMap_cons]
      · rw [Machine.run_cons, rows, grown.rows, List.append_assoc]
        rfl

/-- **When inserts can be appended to a file.** After inserts into any file that
`db_init` accepts, with ids below `INT_MAX`, the next `db_init` loads the old records
followed by the new ones exactly when the number of bytes after the last line feed
of the file was a multiple of what one `fgets` reads, such as none. -/
theorem appended_loads_iff {dataPath : CString} {file : List UInt8} {env : Environment}
    {db : DbEngine} (calm : env.Calm) (granted : (dbInit dataPath file env).2.refused = false)
    (opened : (dbInit dataPath file env).1 = .ok db)
    (belowTop : ∀ record ∈ db.rows, record.id < intMax) {calls : List (Call × Environment)}
    (nonempty : calls ≠ [])
    (succeed : engineMachine.Meets Succeeds { db := db, file := file } calls) :
    let final := (engineMachine.run { db := db, file := file } calls).2
    ∃ inserted,
      List.Forall₂ (fun call record => call.Inserts record) (calls.map Prod.fst) inserted ∧
      final.db.rows = db.rows ++ inserted ∧
      ∀ again : Environment, again.Calm →
        (dbInit dataPath final.file again).2.refused = false →
        ((∃ reloaded, (dbInit dataPath final.file again).1 = .ok reloaded ∧
            reloaded.rows = db.rows ++ inserted) ↔
          tailLength file % lineLimit = 0) := by
  obtain ⟨records, read, loaded⟩ := dbInit_loaded calm granted opened
  have rows : db.rows = records := loaded.rows
  have nextPos : 0 < db.nextId := by
    have noTop : intMax ∉ records.map (·.id) := by
      intro member
      obtain ⟨record, stored, top⟩ := List.mem_map.mp member
      exact (belowTop record (rows ▸ stored)).ne top
    rw [loaded.nextId]
    exact (foldl_loadedNextId noTop) ▸ countedId_pos records
  obtain ⟨inserted, asked, valid, fileAfter, rowsAfter⟩ := succeeds_run nextPos succeed
  intro final
  refine ⟨inserted, asked, rowsAfter, fun again calmAgain grantedAgain => ?_⟩
  have spec := dbInit_spec (dbInit_fits opened) calmAgain grantedAgain
  obtain ⟨record, more, rfl⟩ : ∃ record more, inserted = record :: more := by
    cases inserted with
    | nil => exact absurd (List.map_eq_nil_iff.mp (List.forall₂_nil_right_iff.mp asked)) nonempty
    | cons record more => exact ⟨record, more, rfl⟩
  rw [← unfinished_eq_nil_iff (by decide), ← readFile_append_iff read valid, ← fileAfter, rows]
  constructor
  · rintro ⟨reloaded, reopened, same⟩
    rw [reopened] at spec
    cases reread : readFile final.file with
    | error message =>
        rw [reread] at spec
        cases spec
    | ok found =>
        rw [reread] at spec
        obtain ⟨_, isReloaded, loadedAgain⟩ := spec
        cases isReloaded
        exact congrArg Except.ok (loadedAgain.rows.symm.trans same)
  · intro reread
    rw [reread] at spec
    obtain ⟨reloaded, reopened, loadedAgain⟩ := spec
    exact ⟨reloaded, reopened, loadedAgain.rows⟩

/-- A file whose last line is complete, though not as this program writes it. -/
theorem appended_loads_behind_line :
    let path := CString.ofBuffer (ascii "users.csv")
    let file := ascii " +1,ann,2 years\n"
    let final := (engineMachine.run { db := openedEngine path file .calm, file := file }
      [(.insert (CString.ofBuffer (ascii "bob")) 3, .calm)]).2
    ∃ reloaded, (dbInit path final.file .calm).1 = .ok reloaded ∧
      reloaded.rows = final.db.rows := by
  obtain ⟨inserted, _, rows, loads⟩ := @appended_loads_iff (CString.ofBuffer (ascii "users.csv"))
    (ascii " +1,ann,2 years\n") .calm _ (by decide) (by decide +kernel)
    (dbInit_of_isOk (by decide +kernel)) (by decide +kernel)
    [(.insert (CString.ofBuffer (ascii "bob")) 3, .calm)] (by decide) (by decide +kernel)
  obtain ⟨reloaded, reopened, same⟩ :=
    (loads .calm (by decide) (by decide +kernel)).mpr (by decide)
  exact ⟨reloaded, reopened, same.trans rows.symm⟩

/-- Behind a last line without its line feed, the new record is lost and the old one
changes its age. -/
theorem appended_lost_behind_unfinished :
    let path := CString.ofBuffer (ascii "users.csv")
    let file := ascii "1,ann,2"
    let start : Store := { db := openedEngine path file .calm, file := file }
    let calls : List (Call × Environment) :=
      [(.insertWithId 2 (CString.ofBuffer (ascii "bob")) 3, .calm)]
    let final := (engineMachine.run start calls).2
    (dbInit path file .calm).1 = .ok start.db ∧ (∀ record ∈ start.db.rows, record.id < intMax) ∧
      engineMachine.Meets Succeeds start calls ∧ final.file = ascii "1,ann,22,bob,3\n" ∧
      (dbInit path final.file .calm).1 = .ok (openedEngine path final.file .calm) ∧
      (openedEngine path final.file .calm).rows.map (fun record => (record.id, record.age)) =
        [(1, 22)] ∧
      (openedEngine path final.file .calm).rows ≠ final.db.rows :=
  ⟨dbInit_of_isOk (by decide +kernel), by decide +kernel, by decide +kernel, by decide +kernel,
    dbInit_of_isOk (by decide +kernel), by decide +kernel, by decide +kernel⟩

end MiniDbms.Db
