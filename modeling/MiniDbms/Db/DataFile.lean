import MiniDbms.Db.Record
import MiniDbms.Foundation.CInt
import MiniDbms.Foundation.LineReader

/-! # The data file

One record per line, written with `fprintf` and read back with `fgets` and
`sscanf`. The reader accepts more than the writer writes: blanks and signs before
the numbers, anything after the age, a last line without its line feed, and
lines longer than the buffer, which it takes for several.

The lines written for a list of records are read back as that list
(`MiniDbms.Db.readFile_lines`). They may be appended to any file that ends where
a line ends (`MiniDbms.Db.readFile_append`).
-/

namespace MiniDbms.Db

open Foundation

/-- What `fprintf(file, "%d,%s,%d\n", id, name, age)` writes. -/
def recordLine (record : Record) : List UInt8 :=
  formatInt record.id.toInt ++
    comma :: (record.name.bytes ++ comma :: (formatInt record.age.toInt ++ [lineFeed]))

/-- `sizeof(line) - 1`, the most bytes that one `fgets` stores. -/
def lineLimit : Nat := 511

/-- An ordinary byte of a `sscanf` format. -/
def matchByte (byte : UInt8) : List UInt8 → Option (List UInt8)
  | [] => none
  | first :: text => if first = byte then some text else none

/-- The byte matches where the text begins with it. -/
theorem matchByte_eq_some_iff {byte : UInt8} {text rest : List UInt8} :
    matchByte byte text = some rest ↔ text = byte :: rest := by
  cases text with
  | nil => exact iff_of_false nofun nofun
  | cons first text =>
      rw [matchByte, List.cons.injEq]
      split
      · next same => rw [Option.some.injEq, and_iff_right same]
      · next different => exact iff_of_false nofun fun both => different both.1

/-- `%127[^,]`, copied into the record with `snprintf`. -/
def scanName (text : List UInt8) : Option (Name × List UInt8) :=
  let name := (text.takeWhile (· != comma)).take dbNameLimit
  if name = [] then none
  else some ((CString.ofBuffer name).truncate dbNameLimit, text.drop name.length)

/-- `sscanf(line, "%d,%127[^,],%d", &record.id, name, &record.age)`: nothing
unless all three are converted. A number outside `long` saturates before it is cut
to an `int`. -/
def scanRecord (text : List UInt8) : Option Record := do
  let (id, text) ← strtol text
  let text ← matchByte comma text
  let (name, text) ← scanName text
  let text ← matchByte comma text
  let (age, _) ← strtol text
  return { id := intOfLong id, name := name, age := intOfLong age }

/-- The checks of `db_init` on a scanned record. -/
def recordIsValid (record : Record) : Bool :=
  !(decide (record.id ≤ 0) || decide (record.age < 0) || !nameIsValid record.name.bytes)

/-- The body of the loop of `db_init` before `load_record`: skip the line, or
take a record from it. The string in the buffer ends at the first NUL. -/
def readLine (line : List UInt8) : Except (List UInt8) (Option Record) :=
  if line.headD 0 = lineFeed ∨ line.headD 0 = 0 then .ok none
  else
    match scanRecord (CString.ofBuffer line).bytes with
    | none => .error (ascii "malformed data file")
    | some record =>
        if recordIsValid record then .ok (some record)
        else .error (ascii "invalid record in data file")

/-- The records in the lines, or the first error. -/
def readLines : List (List UInt8) → Except (List UInt8) (List Record)
  | [] => .ok []
  | line :: lines => do
      let found ← readLine line
      let records ← readLines lines
      return found.toList ++ records

/-- The records in a file, or the first error. -/
def readFile (file : List UInt8) : Except (List UInt8) (List Record) :=
  readLines (chunks lineLimit file)

section Numbers

theorem toInt_pos {value : Int32} (positive : 0 < value) : 0 < value.toInt :=
  Int32.lt_iff_toInt_lt.mp positive

theorem toInt_nonneg {value : Int32} (nonneg : 0 ≤ value) : 0 ≤ value.toInt :=
  Int32.le_iff_toInt_le.mp nonneg

/-- An `int` that is not negative is written in digits. -/
theorem isDigit_of_mem_formatInt {value : Int32} (nonneg : 0 ≤ value) :
    ∀ byte ∈ formatInt value.toInt, isDigit byte = true := by
  have natural := toInt_nonneg nonneg
  rw [formatInt, if_neg (by omega)]
  exact isDigit_of_mem_decimal _

end Numbers

theorem recordIsValid_iff (record : Record) :
    recordIsValid record = true ↔
      0 < record.id ∧ 0 ≤ record.age ∧ nameIsValid record.name.bytes = true := by
  simp only [recordIsValid, Bool.not_eq_true', Bool.or_eq_false_iff, decide_eq_false_iff_not,
    not_le, not_lt, Bool.not_eq_false', and_assoc]

/-- A valid name is nonempty and has neither the separator nor an end of line. -/
theorem nameIsValid_iff (name : List UInt8) :
    nameIsValid name = true ↔
      name ≠ [] ∧ comma ∉ name ∧ lineFeed ∉ name ∧ carriageReturn ∉ name := by
  simp only [nameIsValid, Bool.and_eq_true, decide_eq_true_eq, List.all_eq_true]
  constructor
  · rintro ⟨nonempty, plain⟩
    refine ⟨nonempty, fun member => ?_, fun member => ?_, fun member => ?_⟩
    · exact (plain comma member).1.1 rfl
    · exact (plain lineFeed member).1.2 rfl
    · exact (plain carriageReturn member).2 rfl
  · rintro ⟨nonempty, noComma, noFeed, noReturn⟩
    refine ⟨nonempty, fun byte member => ⟨⟨?_, ?_⟩, ?_⟩⟩
    · rintro rfl; exact noComma member
    · rintro rfl; exact noFeed member
    · rintro rfl; exact noReturn member

theorem matchByte_cons (byte : UInt8) (text : List UInt8) :
    matchByte byte (byte :: text) = some text :=
  if_pos rfl

/-- A text that begins with another byte does not begin with a digit. -/
theorem noDigitFirst_cons (byte : UInt8) (plain : isDigit byte = false) (text : List UInt8) :
    NoDigitFirst (byte :: text) := by
  intro first isFirst
  cases isFirst
  exact plain

/-- A name is read up to the comma behind it. -/
theorem scanName_append {name : Name} (nonempty : name.bytes ≠ []) (plain : comma ∉ name.bytes)
    (rest : List UInt8) :
    scanName (name.bytes ++ comma :: rest) = some (name, comma :: rest) := by
  have stops : ∀ byte ∈ name.bytes, (byte != comma) = true := by
    intro byte member
    rw [bne_iff_ne]
    rintro rfl
    exact plain member
  have read : ((name.bytes ++ comma :: rest).takeWhile (· != comma)).take dbNameLimit =
      name.bytes := by
    rw [List.takeWhile_append_of_pos stops, List.takeWhile_cons_of_neg (by simp),
      List.append_nil, List.take_of_length_le name.fits]
  have whole : (CString.ofBuffer name.bytes).truncate dbNameLimit = name := by
    apply BoundedString.ext_bytes
    have all : name.bytes.takeWhile (· != 0) = name.bytes := by
      rw [List.takeWhile_eq_self_iff]
      intro byte member
      rw [bne_iff_ne]
      rintro rfl
      exact name.noNul member
    change ((name.bytes.takeWhile (· != 0)).take dbNameLimit) = name.bytes
    rw [all, List.take_of_length_le name.fits]
  simp only [scanName, read, nonempty, ↓reduceIte, whole, List.drop_left]

/-- The line of a valid record is scanned as the record. -/
theorem scanRecord_line {record : Record} (valid : recordIsValid record = true) :
    scanRecord (recordLine record) = some record := by
  obtain ⟨idPos, ageNonneg, nameValid⟩ := (recordIsValid_iff record).mp valid
  obtain ⟨nonempty, noComma, _, _⟩ := (nameIsValid_iff _).mp nameValid
  have separated := noDigitFirst_cons comma (by decide)
  have ended := noDigitFirst_cons lineFeed (by decide) []
  unfold scanRecord recordLine
  rw [strtol_formatInt (Int.le_of_lt (toInt_pos idPos)) (separated _)]
  simp only [Option.bind_eq_bind, Option.bind_some, matchByte_cons,
    scanName_append nonempty noComma, strtol_formatInt (toInt_nonneg ageNonneg) ended,
    intOfLong_toInt]
  rfl

/-- The line of a valid record has no NUL. -/
theorem zero_not_mem_recordLine {record : Record} (valid : recordIsValid record = true) :
    0 ∉ recordLine record := by
  obtain ⟨idPos, ageNonneg, _⟩ := (recordIsValid_iff record).mp valid
  have digits : ∀ value : Int32, 0 ≤ value → 0 ∉ formatInt value.toInt := by
    intro value nonneg member
    exact absurd (isDigit_of_mem_formatInt nonneg 0 member) (by decide)
  simp only [recordLine, List.mem_append, List.mem_cons, List.not_mem_nil, or_false, not_or]
  exact ⟨digits _ idPos.le, by decide, record.name.noNul, by decide, digits _ ageNonneg, by decide⟩

/-- Everything but the last byte of a written line. -/
def recordText (record : Record) : List UInt8 :=
  formatInt record.id.toInt ++
    comma :: (record.name.bytes ++ comma :: formatInt record.age.toInt)

theorem recordLine_eq (record : Record) : recordLine record = recordText record ++ [lineFeed] := by
  simp only [recordLine, recordText, List.append_assoc, List.cons_append]

/-- The text of a valid record has no line feed. -/
theorem lineFeed_not_mem_recordText {record : Record} (valid : recordIsValid record = true) :
    lineFeed ∉ recordText record := by
  obtain ⟨idPos, ageNonneg, nameValid⟩ := (recordIsValid_iff record).mp valid
  obtain ⟨_, _, noFeed, _⟩ := (nameIsValid_iff _).mp nameValid
  have digits : ∀ value : Int32, 0 ≤ value → lineFeed ∉ formatInt value.toInt := by
    intro value nonneg member
    exact absurd (isDigit_of_mem_formatInt nonneg lineFeed member) (by decide)
  simp only [recordText, List.mem_append, List.mem_cons, not_or]
  exact ⟨digits _ idPos.le, by decide, noFeed, by decide, digits _ ageNonneg⟩

/-- A written line is much shorter than the buffer it is read into. -/
theorem length_recordText_le {record : Record} (valid : recordIsValid record = true) :
    (recordText record).length ≤ 149 := by
  obtain ⟨idPos, ageNonneg, _⟩ := (recordIsValid_iff record).mp valid
  have idDigits := length_formatInt_le (Int.le_of_lt (toInt_pos idPos))
  have ageDigits := length_formatInt_le (toInt_nonneg ageNonneg)
  have fits := record.name.fits
  simp only [dbNameLimit] at fits
  simp only [recordText, List.length_append, List.length_cons]
  omega

/-- A line starts with a digit of its id. -/
theorem recordLine_head {record : Record} (valid : recordIsValid record = true) :
    ∃ digit rest, recordLine record = digit :: rest ∧ isDigit digit = true := by
  obtain ⟨idPos, _, _⟩ := (recordIsValid_iff record).mp valid
  have digits := isDigit_of_mem_formatInt idPos.le
  have natural := toInt_pos idPos
  have nonempty : formatInt record.id.toInt ≠ [] := by
    rw [formatInt, if_neg (by omega)]
    exact decimal_ne_nil _
  obtain ⟨digit, rest, spelled⟩ := List.exists_cons_of_ne_nil nonempty
  rw [spelled] at digits
  exact ⟨digit, _, by rw [recordLine, spelled, List.cons_append], digits digit List.mem_cons_self⟩

/-- **A written line is read back as its record.** -/
theorem readLine_recordLine {record : Record} (valid : recordIsValid record = true) :
    readLine (recordLine record) = .ok (some record) := by
  obtain ⟨digit, rest, spelled, isFirst⟩ := recordLine_head valid
  have started : ¬((recordLine record).headD 0 = lineFeed ∨ (recordLine record).headD 0 = 0) := by
    rw [spelled, List.headD_cons]
    rintro (rfl | rfl) <;> cases isFirst
  have whole : (CString.ofBuffer (recordLine record)).bytes = recordLine record := by
    apply List.takeWhile_eq_self_iff.mpr
    intro byte member
    rw [bne_iff_ne]
    rintro rfl
    exact zero_not_mem_recordLine valid member
  rw [readLine, if_neg started, whole, scanRecord_line valid]
  simp only [valid, ↓reduceIte]

/-- Lines are read one part after the other. -/
theorem readLines_append (first second : List (List UInt8)) :
    readLines (first ++ second) = do
      let before ← readLines first
      let after ← readLines second
      return before ++ after := by
  induction first with
  | nil =>
      change readLines second = (do let after ← readLines second; return [] ++ after)
      cases readLines second <;> rfl
  | cons line first ih =>
      simp only [List.cons_append, readLines, ih]
      cases readLine line with
      | error message => rfl
      | ok found =>
          cases readLines first with
          | error message => rfl
          | ok before =>
              cases readLines second with
              | error message => rfl
              | ok after => exact congrArg Except.ok (List.append_assoc _ before after).symm

/-- A file that ends where a line ends is read independently of what follows. -/
theorem readFile_append {file : List UInt8} (ended : unfinished lineLimit [] file = [])
    (more : List UInt8) :
    readFile (file ++ more) = do
      let before ← readFile file
      let after ← readFile more
      return before ++ after := by
  have whole : chunks lineLimit file = completed lineLimit [] file := by
    rw [chunks, chunksFrom_eq, ended, if_pos rfl, List.append_nil]
  rw [readFile, chunks, chunksFrom_append, ended, readLines_append, readFile, whole]
  rfl

/-- The line of a valid record ends the line that is being read, if that is short. -/
theorem completed_recordLine {record : Record} (valid : recordIsValid record = true)
    {pending : List UInt8} (short : pending.length + 149 < lineLimit) :
    completed lineLimit pending (recordLine record) = [pending ++ recordLine record] ∧
      unfinished lineLimit pending (recordLine record) = [] := by
  have bounded := length_recordText_le valid
  rw [recordLine_eq, ← List.append_assoc]
  exact completed_line (lineFeed_not_mem_recordText valid) (by omega)

/-- **The lines written for a list of records are read back as that list.** -/
theorem readFile_lines {records : List Record}
    (valid : ∀ record ∈ records, recordIsValid record = true) :
    readFile (records.flatMap recordLine) = .ok records := by
  induction records with
  | nil => rfl
  | cons record records ih =>
      have first := valid record List.mem_cons_self
      obtain ⟨line, ended⟩ := completed_recordLine first (by decide : [].length + 149 < _)
      have alone : readFile (recordLine record) = .ok [record] := by
        rw [readFile, chunks, chunksFrom_eq, line, ended, if_pos rfl, List.append_nil,
          List.nil_append, readLines, readLine_recordLine first]
        rfl
      rw [List.flatMap_cons, readFile_append ended, alone,
        ih fun later member => valid later (List.mem_cons_of_mem record member)]
      rfl

end MiniDbms.Db
