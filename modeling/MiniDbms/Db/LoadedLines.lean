import Mathlib.Data.List.Forall2
import MiniDbms.Db.Coherence

/-! # What a loaded file says

`db_init` accepts a file whose lines it may have misread: `sscanf` stops behind the third
number, cuts numbers to an `int` and ends at a NUL, and `fgets` takes a line longer than
its buffer for several. The records are what the lines of an accepted file say if and
only if none of this happened (`MiniDbms.Db.faithful_iff`).
-/

namespace MiniDbms.Db

open Foundation

/-- The lines of a file, without their line feeds. -/
def fileLines (file : List UInt8) : List (List UInt8) := file.splitOn lineFeed

/-- A decimal integer with white space around it. -/
def IntegerField (field : List UInt8) (value : Int32) : Prop :=
  ∃ spelling blanks, Numeral spelling value.toInt ∧ (∀ byte ∈ blanks, isSpace byte = true) ∧
    field = spelling ++ blanks

/-- The line consists of three fields, which are those of the record. -/
def Denotes (line : List UInt8) (record : Record) : Prop :=
  ∃ id age, IntegerField id record.id ∧ comma ∉ record.name.bytes ∧
    IntegerField age record.age ∧ line = id ++ comma :: (record.name.bytes ++ comma :: age)

/-- The lines that are not empty say what the records are, one to one and in order. -/
def Faithful (file : List UInt8) (rows : List Record) : Prop :=
  List.Forall₂ Denotes ((fileLines file).filter (· ≠ [])) rows

/-- The value is one of an `int`. -/
def FitsInt (number : Int) : Prop := -2 ^ 31 ≤ number ∧ number < 2 ^ 31

/-- The line begins with a number, a name and a number, and `rest` is what follows. -/
def Begins (line : List UInt8) (id : Int) (name : List UInt8) (age : Int)
    (rest : List UInt8) : Prop :=
  ∃ idSpelling ageSpelling, Numeral idSpelling id ∧ comma ∉ name ∧ Numeral ageSpelling age ∧
    NoDigitFirst rest ∧ line = idSpelling ++ comma :: (name ++ comma :: (ageSpelling ++ rest))

/-- A line of a length and with bytes that `db_init` expects, in which the numbers are in
range and only white space follows them. -/
structure Plain (line : List UInt8) : Prop where
  fits : line.length ≤ lineLimit
  noNul : 0 ∉ line
  exact : ∀ id name age rest, Begins line id name age rest →
    FitsInt id ∧ FitsInt age ∧ ∀ byte ∈ rest, isSpace byte = true

/-- What the three conversions of `db_init` give before the numbers are cut to `int`, and
the text behind them. -/
structure Scanned where
  id : Int
  name : Name
  age : Int
  rest : List UInt8

def scanFields (text : List UInt8) : Option Scanned := do
  let (id, text) ← strtol text
  let text ← matchByte comma text
  let (name, text) ← scanName text
  let text ← matchByte comma text
  let (age, rest) ← strtol text
  return { id := id, name := name, age := age, rest := rest }

/-- The record that is left of them. -/
def Scanned.record (scanned : Scanned) : Record :=
  { id := intOfLong scanned.id, name := scanned.name, age := intOfLong scanned.age }

/-- The record is what was scanned. -/
theorem scanRecord_eq (text : List UInt8) :
    scanRecord text = (scanFields text).map Scanned.record := by
  unfold scanRecord scanFields
  rcases strtol text with _ | ⟨id, afterId⟩
  · rfl
  · simp only [Option.bind_eq_bind, Option.bind_some]
    rcases matchByte comma afterId with _ | text
    · rfl
    · simp only [Option.bind_some]
      rcases scanName text with _ | ⟨name, afterName⟩
      · rfl
      · simp only [Option.bind_some]
        rcases matchByte comma afterName with _ | text
        · rfl
        · simp only [Option.bind_some]
          rcases strtol text with _ | ⟨age, rest⟩ <;> rfl

/-- A scanned name is not empty, ends before the comma and begins the text. -/
theorem scanName_eq_some {text rest : List UInt8} {name : Name} (noNul : 0 ∉ text)
    (scanned : scanName text = some (name, rest)) :
    name.bytes ≠ [] ∧ comma ∉ name.bytes ∧ text = name.bytes ++ rest := by
  simp only [scanName] at scanned
  split at scanned
  · cases scanned
  · next nonempty =>
      cases scanned
      have initial : (text.takeWhile (· != comma)).take dbNameLimit <+: text :=
        (List.take_prefix _ _).trans (List.takeWhile_prefix _)
      have same := @BoundedString.truncate_ofBuffer dbNameLimit _
        (fun member => noNul (initial.subset member)) (List.length_take_le _ _)
      rw [same]
      refine ⟨nonempty, fun member => ?_, ?_⟩
      · have stopped := List.mem_takeWhile_imp (List.mem_of_mem_take member)
        simp only [bne_self_eq_false, Bool.false_eq_true] at stopped
      · conv_rhs => arg 1; rw [List.prefix_iff_eq_take.mp initial]
        exact (List.take_append_drop _ _).symm

/-- The line is made of the fields that were read and the rest. -/
theorem scanFields_eq_some_iff {text : List UInt8} (noNul : 0 ∉ text) {scanned : Scanned} :
    scanFields text = some scanned ↔
      ∃ id age, Begins text id scanned.name.bytes age scanned.rest ∧ scanned.name.bytes ≠ [] ∧
        scanned.id = clampLong id ∧ scanned.age = clampLong age := by
  constructor
  · intro read
    simp only [scanFields, Option.bind_eq_bind, Option.bind_eq_some_iff] at read
    obtain ⟨⟨idValue, afterId⟩, idRead, afterComma, idComma, ⟨name, afterName⟩, nameRead,
      beforeAge, nameComma, ⟨ageValue, rest⟩, ageRead, same⟩ := read
    cases same
    obtain ⟨id, idNumber, idNumeral, _, rfl, idSame⟩ := strtol_eq_some_iff_numeral.mp idRead
    obtain ⟨age, ageNumber, ageNumeral, stop, rfl, ageSame⟩ :=
      strtol_eq_some_iff_numeral.mp ageRead
    obtain rfl := matchByte_eq_some_iff.mp idComma
    obtain rfl := matchByte_eq_some_iff.mp nameComma
    obtain ⟨nonempty, plain, rfl⟩ := scanName_eq_some (fun member =>
      noNul (List.mem_append_right _ (List.mem_cons_of_mem _ member))) nameRead
    exact ⟨idNumber, ageNumber, ⟨id, age, idNumeral, plain, ageNumeral, stop, rfl⟩, nonempty,
      idSame, ageSame⟩
  · rintro ⟨idNumber, ageNumber, ⟨id, age, idNumeral, plain, ageNumeral, stop, rfl⟩, nonempty,
      idSame, ageSame⟩
    have idRead := strtol_eq_some_iff_numeral.mpr ⟨id, idNumber, idNumeral,
      noDigitFirst_cons comma rfl (scanned.name.bytes ++ comma :: (age ++ scanned.rest)), rfl, rfl⟩
    have ageRead := strtol_eq_some_iff_numeral.mpr ⟨age, ageNumber, ageNumeral, stop, rfl, rfl⟩
    simp only [scanFields, idRead, Option.bind_eq_bind, Option.bind_some, matchByte_cons,
      scanName_append nonempty plain, ageRead, ← idSame, ← ageSame]
    rfl

/-- Blank text does not begin with a digit. -/
theorem noDigitFirst_of_blank {text : List UInt8} (blank : ∀ byte ∈ text, isSpace byte = true) :
    NoDigitFirst text := by
  intro byte first
  have space := blank byte (List.mem_of_mem_head? first)
  by_contra digit
  rw [(isDigit_plain (eq_true_of_ne_false digit)).1] at space
  cases space

/-- In a field there is nothing that could end it. -/
theorem not_mem_integerField {field : List UInt8} {value : Int32}
    (integer : IntegerField field value) : comma ∉ field ∧ 0 ∉ field := by
  obtain ⟨spelling, blanks, numeral, blank, rfl⟩ := integer
  have absent : ∀ byte, isSpace byte = false → byte ≠ plusSign → byte ≠ minusSign →
      isDigit byte = false → byte ∉ spelling ++ blanks := by
    intro byte space plus minus digit member
    rcases List.mem_append.mp member with spelled | after
    · rcases numeral.bytes byte spelled with other | other | other | other
      · exact Bool.false_ne_true (space.symm.trans other)
      · exact plus other
      · exact minus other
      · exact Bool.false_ne_true (digit.symm.trans other)
    · exact Bool.false_ne_true (space.symm.trans (blank byte after))
  exact ⟨absent comma rfl nofun nofun rfl, absent 0 rfl nofun nofun rfl⟩

theorem integerField_of_numeral {spelling : List UInt8} {value : Int32}
    (numeral : Numeral spelling value.toInt) : IntegerField spelling value :=
  ⟨spelling, [], numeral, List.forall_mem_nil _, (List.append_nil _).symm⟩

/-- `strtol` reads the number of a field. -/
theorem strtol_integerField {field : List UInt8} {value : Int32}
    (integer : IntegerField field value) :
    ∃ blanks, (∀ byte ∈ blanks, isSpace byte = true) ∧
      strtol field = some (value.toInt, blanks) := by
  obtain ⟨spelling, blanks, numeral, blank, rfl⟩ := integer
  exact ⟨blanks, blank, strtol_eq_some_iff_numeral.mpr ⟨spelling, _, numeral,
    noDigitFirst_of_blank blank, rfl, (clampLong_of_int value).symm⟩⟩

/-- A number in range is neither clamped nor cut. -/
theorem intOfLong_clampLong {number : Int} (fits : FitsInt number) :
    (intOfLong (clampLong number)).toInt = number := by
  obtain ⟨lower, upper⟩ := fits
  rw [show clampLong number = number by unfold clampLong; omega, intOfLong]
  exact Int32.toInt_ofInt_of_le lower upper

/-- A number that is clamped is not one of an `int`. -/
theorem fitsInt_of_clampLong {number : Int} {value : Int32}
    (same : value.toInt = clampLong number) : FitsInt number := by
  have upper := value.toInt_lt
  have lower := value.le_toInt
  rw [same] at upper lower
  unfold clampLong at upper lower
  constructor <;> omega

/-- A plain line says what the record is that was read from it. -/
theorem denotes_of_plain {line : List UInt8} (plain : Plain line) {scanned : Scanned}
    (read : scanFields line = some scanned) : Denotes line scanned.record := by
  obtain ⟨id, age, begins, _, idSame, ageSame⟩ := (scanFields_eq_some_iff plain.noNul).mp read
  obtain ⟨idFits, ageFits, blank⟩ := plain.exact _ _ _ _ begins
  obtain ⟨idSpelling, ageSpelling, idNumeral, name, ageNumeral, _, split⟩ := begins
  have idInteger : IntegerField idSpelling (intOfLong scanned.id) := by
    apply integerField_of_numeral
    rwa [idSame, intOfLong_clampLong idFits]
  have ageInteger : IntegerField (ageSpelling ++ scanned.rest) (intOfLong scanned.age) := by
    refine ⟨ageSpelling, scanned.rest, ?_, blank, rfl⟩
    rwa [ageSame, intOfLong_clampLong ageFits]
  exact ⟨idSpelling, ageSpelling ++ scanned.rest, idInteger, name, ageInteger, split⟩

/-- Whatever a line that denotes a record begins with are the fields of the record. -/
theorem exact_of_denotes {line : List UInt8} {record : Record} (denotes : Denotes line record)
    {id age : Int} {name rest : List UInt8} (begins : Begins line id name age rest) :
    FitsInt id ∧ FitsInt age ∧ ∀ byte ∈ rest, isSpace byte = true := by
  obtain ⟨idSpelling, ageSpelling, idNumeral, plain, ageNumeral, stop, split⟩ := begins
  obtain ⟨idField, ageField, idInteger, recordPlain, ageInteger, fields⟩ := denotes
  have idRead : strtol idSpelling = some (clampLong id, []) := by
    apply strtol_eq_some_iff_numeral.mpr
    exact ⟨idSpelling, id, idNumeral, nofun, (List.append_nil _).symm, rfl⟩
  have ageRead : strtol (ageSpelling ++ rest) = some (clampLong age, rest) := by
    apply strtol_eq_some_iff_numeral.mpr
    exact ⟨ageSpelling, age, ageNumeral, stop, rfl, rfl⟩
  obtain ⟨_, _, idValue⟩ := strtol_integerField idInteger
  obtain ⟨blanks, blank, ageValue⟩ := strtol_integerField ageInteger
  have idPlain : comma ∉ idSpelling := by
    intro member
    rcases idNumeral.bytes comma member with other | other | other | other <;> cases other
  -- The commas are in the same places.
  obtain ⟨sameId, others⟩ := eq_of_append_cons idPlain (not_mem_integerField idInteger).1
    (split.symm.trans fields)
  obtain ⟨_, sameAge⟩ := eq_of_append_cons plain recordPlain others
  rw [sameId, idValue] at idRead
  rw [sameAge, ageValue] at ageRead
  obtain ⟨idIs, _⟩ := Prod.mk.inj (Option.some.inj idRead)
  obtain ⟨ageIs, restIs⟩ := Prod.mk.inj (Option.some.inj ageRead)
  exact ⟨fitsInt_of_clampLong idIs, fitsInt_of_clampLong ageIs, restIs ▸ blank⟩

theorem noNul_concat {line : List UInt8} (noNul : 0 ∉ line) : 0 ∉ line ++ [lineFeed] := by
  rw [List.mem_append, not_or]
  exact ⟨noNul, nofun⟩

/-- A line is read the same with its line feed. -/
theorem scanFields_concat {line : List UInt8} (noNul : 0 ∉ line) {scanned : Scanned}
    (read : scanFields (line ++ [lineFeed]) = some scanned) :
    ∃ rest, scanned.rest = rest ++ [lineFeed] ∧
      scanFields line = some { scanned with rest := rest } := by
  obtain ⟨idNumber, ageNumber, ⟨id, age, idNumeral, plain, ageNumeral, stop, split⟩, nonempty,
    idSame, ageSame⟩ := (scanFields_eq_some_iff (noNul_concat noNul)).mp read
  obtain ⟨front, digit, spelled, isDigit_⟩ := ageNumeral.concat
  have whole : line ++ [lineFeed] =
      id ++ comma :: (scanned.name.bytes ++ comma :: age) ++ scanned.rest := by
    rw [split]
    simp only [List.append_assoc, List.cons_append]
  rcases List.eq_nil_or_concat' scanned.rest with nothing | ⟨rest, last, concat⟩
  · -- The line feed is no digit.
    have ends : line ++ [lineFeed] =
        id ++ comma :: (scanned.name.bytes ++ comma :: front) ++ [digit] := by
      rw [whole, nothing, spelled]
      simp only [List.append_assoc, List.cons_append, List.append_nil]
    obtain ⟨_, same⟩ := List.append_inj' ends rfl
    rw [← List.singleton_inj.mp same] at isDigit_
    cases isDigit_
  · rw [concat, ← List.append_assoc] at whole
    obtain ⟨front, same⟩ := List.append_inj' whole rfl
    obtain rfl := List.singleton_inj.mp same
    refine ⟨rest, concat, (scanFields_eq_some_iff noNul).mpr ⟨idNumber, ageNumber, ⟨id, age,
      idNumeral, plain, ageNumeral, ?_, ?_⟩, nonempty, idSame, ageSame⟩⟩
    · intro byte first
      apply stop byte
      rw [concat]
      rcases rest with _ | ⟨lead, others⟩
      · cases first
      · exact first
    · rw [front]
      simp only [List.append_assoc, List.cons_append]

/-- `db_init` read the line and got these records. -/
structure LineRead (line : List UInt8) (part : List Record) : Prop where
  plain : lineFeed ∉ line
  read : ∃ tail, (tail = [] ∨ tail = [lineFeed]) ∧ readFile (line ++ tail) = .ok part

/-- The first piece of a file, if it is long enough. -/
theorem chunks_append {front : List UInt8} (plain : lineFeed ∉ front)
    (full : front.length = lineLimit) (more : List UInt8) :
    chunks lineLimit (front ++ more) = front :: chunks lineLimit more := by
  have nonempty : front ≠ [] := by
    rintro rfl
    cases full
  obtain ⟨one, none⟩ := @completed_full lineLimit [] front plain nonempty (by
    rw [List.length_nil, Nat.zero_add, full])
  rw [chunks, chunksFrom_append, one, none]
  rfl

/-- A short line that is not empty is one piece, and perhaps its line feed another. -/
theorem chunks_short {line tail : List UInt8} (plain : lineFeed ∉ line) (nonempty : line ≠ [])
    (short : line.length ≤ lineLimit) (ends : tail = [] ∨ tail = [lineFeed]) :
    chunks lineLimit (line ++ tail) = [line ++ tail] ∨
      chunks lineLimit (line ++ tail) = [line, [lineFeed]] ∨
        chunks lineLimit (line ++ tail) = [line] := by
  rcases Nat.lt_or_eq_of_le short with shorter | full
  · rcases ends with rfl | rfl
    · obtain ⟨none, kept⟩ := @unfinished_of_short lineLimit [] line plain (by
        rw [List.length_nil, Nat.zero_add]
        exact shorter)
      refine .inl ?_
      rw [List.append_nil, chunks, chunksFrom_eq, none, kept, List.nil_append, List.nil_append,
        if_neg nonempty]
    · obtain ⟨one, none⟩ := @completed_line lineLimit [] line plain (by
        rw [List.length_nil, Nat.zero_add]
        exact shorter)
      refine .inl ?_
      rw [chunks, chunksFrom_eq, one, none]
      rfl
  · rw [chunks_append plain full]
    rcases ends with rfl | rfl
    · exact .inr (.inr rfl)
    · exact .inr (.inl rfl)

/-- A line that is accepted and not empty has been scanned. -/
theorem readLine_eq_ok {line : List UInt8} {found : Option Record} {lead : UInt8}
    {others : List UInt8} (noNul : 0 ∉ line) (starts : line = lead :: others)
    (notFeed : lead ≠ lineFeed) (read : readLine line = .ok found) :
    ∃ scanned, scanFields line = some scanned ∧ found = some scanned.record := by
  have begun : ¬(line.headD 0 = lineFeed ∨ line.headD 0 = 0) := by
    rw [starts, List.headD_cons]
    rintro (same | same)
    · exact notFeed same
    · exact noNul (starts ▸ same ▸ List.mem_cons_self)
  rw [readLine, if_neg begun, CString.ofBuffer_bytes noNul, scanRecord_eq] at read
  rcases fields : scanFields line with _ | scanned
  · rw [fields] at read
    cases read
  · rw [fields] at read
    dsimp only [Option.map_some] at read
    split at read
    · cases read
      exact ⟨scanned, rfl, rfl⟩
    · cases read

/-- The pieces of a file are read one after another. -/
theorem readLines_cons {line : List UInt8} {lines : List (List UInt8)} {part : List Record} :
    readLines (line :: lines) = .ok part ↔
      ∃ found records, readLine line = .ok found ∧ readLines lines = .ok records ∧
        part = found.toList ++ records := by
  rw [readLines]
  rcases readLine line with message | found
  · refine iff_of_false (fun impossible => by cases impossible) ?_
    rintro ⟨_, _, impossible, _⟩
    cases impossible
  · rcases readLines lines with message | records
    · refine iff_of_false (fun impossible => by cases impossible) ?_
      rintro ⟨_, _, _, impossible, _⟩
      cases impossible
    · constructor
      · rintro ⟨⟩
        exact ⟨found, records, rfl, rfl, rfl⟩
      · rintro ⟨_, _, ⟨⟩, ⟨⟩, rfl⟩
        rfl

/-- A short line is read at once. -/
theorem LineRead.short {line : List UInt8} {part : List Record} (read : LineRead line part)
    (nonempty : line ≠ []) (short : line.length ≤ lineLimit) (noNul : 0 ∉ line) :
    ∃ scanned, scanFields line = some scanned ∧ part = [scanned.record] := by
  obtain ⟨plain, tail, ends, read⟩ := read
  obtain ⟨lead, others, starts⟩ := List.exists_cons_of_ne_nil nonempty
  have notFeed : lead ≠ lineFeed := by
    rintro rfl
    exact plain (starts ▸ List.mem_cons_self)
  have alone : ∀ found records, readLine line = .ok found → part = found.toList ++ records →
      records = [] → ∃ scanned, scanFields line = some scanned ∧ part = [scanned.record] := by
    rintro found records one rfl rfl
    obtain ⟨scanned, fields, rfl⟩ := readLine_eq_ok noNul starts notFeed one
    exact ⟨scanned, fields, rfl⟩
  rw [readFile] at read
  rcases chunks_short plain nonempty short ends with pieces | pieces | pieces <;>
    rw [pieces] at read <;> obtain ⟨found, records, one, others', same⟩ := readLines_cons.mp read
  · cases others'
    rcases ends with rfl | rfl
    · rw [List.append_nil] at one
      exact alone found [] one same rfl
    · obtain ⟨scanned, fields, rfl⟩ := readLine_eq_ok (noNul_concat noNul)
        (congrArg (· ++ [lineFeed]) starts) notFeed one
      obtain ⟨rest, _, fields⟩ := scanFields_concat noNul fields
      exact ⟨_, fields, same⟩
  · obtain ⟨_, _, feed, last, rfl⟩ := readLines_cons.mp others'
    cases feed
    cases last
    exact alone found [] one same rfl
  · cases others'
    exact alone found [] one same rfl

/-- A record needs two commas. -/
theorem two_le_count_comma {text : List UInt8} (noNul : 0 ∉ text) {scanned : Scanned}
    (read : scanFields text = some scanned) : 2 ≤ text.count comma := by
  obtain ⟨_, _, ⟨_, _, _, _, _, _, rfl⟩, _⟩ := (scanFields_eq_some_iff noNul).mp read
  simp only [List.count_append, List.count_cons_self]
  omega

/-- The three fields of a record have two commas between them. -/
theorem Denotes.count_comma {line : List UInt8} {record : Record}
    (denotes : Denotes line record) : line.count comma = 2 := by
  obtain ⟨id, age, idInteger, plain, ageInteger, rfl⟩ := denotes
  simp only [List.count_append, List.count_cons_self, List.count_eq_zero_of_not_mem plain,
    List.count_eq_zero_of_not_mem (not_mem_integerField idInteger).1,
    List.count_eq_zero_of_not_mem (not_mem_integerField ageInteger).1]

/-- A line that says a record has no NUL. -/
theorem Denotes.noNul {line : List UInt8} {record : Record} (denotes : Denotes line record) :
    0 ∉ line := by
  obtain ⟨id, age, idInteger, _, ageInteger, rfl⟩ := denotes
  simp only [List.mem_append, List.mem_cons, not_or]
  exact ⟨(not_mem_integerField idInteger).2, nofun, record.name.noNul, nofun,
    (not_mem_integerField ageInteger).2⟩

/-- What is not stored in the buffer is left in the stream. -/
theorem takeChunk_append (limit : Nat) (stream : List UInt8) :
    (takeChunk limit stream).1 ++ (takeChunk limit stream).2 = stream := by
  induction stream generalizing limit with
  | nil => cases limit <;> rfl
  | cons byte stream ih =>
      cases limit with
      | zero => rfl
      | succ limit =>
          rw [takeChunk]
          split
          · rfl
          · exact congrArg (byte :: ·) (ih limit)

/-- A line longer than the buffer is read as more than one record, if at all. -/
theorem LineRead.long {line : List UInt8} {part : List Record} (read : LineRead line part)
    (long : lineLimit < line.length) (record : Record) : ¬ Denotes line record := by
  intro denotes
  obtain ⟨plain, tail, ends, read⟩ := read
  have noNul := denotes.noNul
  have total := denotes.count_comma
  obtain ⟨front, back, rfl, full⟩ : ∃ front back, line = front ++ back ∧
      front.length = lineLimit :=
    ⟨line.take lineLimit, line.drop lineLimit, (List.take_append_drop _ _).symm,
      List.length_take_of_le long.le⟩
  obtain ⟨lead, others, rfl⟩ := List.exists_cons_of_ne_nil (l := front) (by
    rintro rfl
    cases full)
  obtain ⟨next, more, rfl⟩ := List.exists_cons_of_ne_nil (l := back) (by
    rintro rfl
    rw [List.append_nil, full] at long
    exact lt_irrefl _ long)
  simp only [List.mem_append, not_or] at plain noNul
  rw [readFile, List.append_assoc, chunks_append plain.1 full, chunks_eq_fgets (by decide)] at read
  obtain ⟨_, _, first, read, _⟩ := readLines_cons.mp read
  obtain ⟨_, firstFields, _⟩ := readLine_eq_ok noNul.1 rfl
    (fun same => plain.1 (same ▸ List.mem_cons_self)) first
  simp only [fgets, List.cons_append, reduceCtorEq, ↓reduceIte] at read
  obtain ⟨_, _, second, _, _⟩ := readLines_cons.mp read
  have pieces := takeChunk_append lineLimit (next :: (more ++ tail))
  have noNul' : 0 ∉ (takeChunk lineLimit (next :: (more ++ tail))).1 := by
    intro member
    have inside := List.mem_append_left (takeChunk lineLimit (next :: (more ++ tail))).2 member
    rw [pieces, ← List.cons_append] at inside
    rcases List.mem_append.mp inside with here | after
    · exact noNul.2 here
    · rcases ends with rfl | rfl
      · cases after
      · cases List.mem_singleton.mp after
  have starts : (takeChunk lineLimit (next :: (more ++ tail))).1 =
      next :: (takeChunk 510 (more ++ tail)).1 := by
    rw [lineLimit, takeChunk, if_neg]
    rintro rfl
    exact plain.2 List.mem_cons_self
  obtain ⟨_, secondFields, _⟩ := readLine_eq_ok noNul' starts
    (fun same => plain.2 (same ▸ List.mem_cons_self)) second
  have one := two_le_count_comma noNul.1 firstFields
  have two := two_le_count_comma noNul' secondFields
  have atMost := congrArg (List.count comma) pieces
  have noComma : tail.count comma = 0 := by rcases ends with rfl | rfl <;> rfl
  have behind : (next :: (more ++ tail)).count comma = (next :: more).count comma := by
    rw [← List.cons_append, List.count_append, noComma, Nat.add_zero]
  rw [List.count_append, behind] at atMost
  rw [List.count_append] at total
  omega

/-- Every item is related to one of the others. -/
theorem exists_of_forall₂ {α β : Type} {relation : α → β → Prop} {items : List α} {others : List β}
    (related : List.Forall₂ relation items others) :
    ∀ item ∈ items, ∃ other, relation item other := by
  induction related with
  | nil => exact nofun
  | cons first _ ih =>
      intro item member
      rcases List.mem_cons.mp member with rfl | later
      · exact ⟨_, first⟩
      · exact ih item later

/-- A line that says what some record is was not misread. -/
theorem LineRead.plain_of_denotes {line : List UInt8} {part : List Record} {record : Record}
    (read : LineRead line part) (denotes : Denotes line record) : Plain line where
  fits := by
    by_contra long
    exact read.long (Nat.lt_of_not_le long) record denotes
  noNul := denotes.noNul
  exact _ _ _ _ begins := exact_of_denotes denotes begins

theorem LineRead.denotes_of_plain {line : List UInt8} {part : List Record}
    (read : LineRead line part) (nonempty : line ≠ []) (plain : Plain line) :
    ∃ record, part = [record] ∧ Denotes line record := by
  obtain ⟨scanned, fields, rfl⟩ := read.short nonempty plain.fits plain.noNul
  exact ⟨scanned.record, rfl, Db.denotes_of_plain plain fields⟩

/-- An empty line is read as nothing. -/
theorem LineRead.empty {part : List Record} (read : LineRead [] part) : part = [] := by
  obtain ⟨_, tail, ends, read⟩ := read
  rcases ends with rfl | rfl
  · cases read
    rfl
  · cases read
    rfl

/-- No byte of a plain line is a line feed. -/
theorem beq_lineFeed {line : List UInt8} (plain : lineFeed ∉ line) :
    ∀ byte ∈ line, (byte == lineFeed) = false := by
  intro byte member
  rw [beq_eq_false_iff_ne]
  rintro rfl
  exact plain member

/-- An accepted file was read line by line. -/
theorem exists_lineReads {file : List UInt8} {rows : List Record}
    (read : readFile file = .ok rows) :
    ∃ parts, rows = parts.flatten ∧ List.Forall₂ LineRead (fileLines file) parts := by
  induction counted : file.length using Nat.strongRecOn generalizing file rows with
  | ind length ih =>
      by_cases feeds : lineFeed ∈ file
      · obtain ⟨line, more, rfl, plain⟩ := List.eq_append_cons_of_mem feeds
        have lines : fileLines (line ++ lineFeed :: more) = line :: fileLines more :=
          List.splitOnP_append_cons_of_forall_mem (beq_lineFeed plain) lineFeed rfl more
        have ended : unfinished lineLimit [] (line ++ [lineFeed]) = [] := by
          rw [unfinished_append, unfinished, if_pos (.inl rfl)]
          rfl
        rw [← List.singleton_append, ← List.append_assoc, readFile_append ended] at read
        rcases first : readFile (line ++ [lineFeed]) with _ | part <;> rw [first] at read
        · cases read
        · rcases others : readFile more with _ | records <;> rw [others] at read
          · cases read
          · cases read
            obtain ⟨parts, rfl, reads⟩ := ih more.length (by
              rw [← counted, List.length_append, List.length_cons]
              omega) others rfl
            refine ⟨part :: parts, rfl, ?_⟩
            rw [lines]
            exact .cons ⟨plain, [lineFeed], .inr rfl, first⟩ reads
      · have lines : fileLines file = [file] := List.splitOnP_eq_singleton (beq_lineFeed feeds)
        refine ⟨[rows], (List.append_nil rows).symm, ?_⟩
        rw [lines]
        exact .cons ⟨feeds, [], .inl rfl, by rwa [List.append_nil]⟩ .nil

/-- The rows of an engine that was opened are what was read from the file, whatever else
failed. -/
theorem readFile_of_opened {dataPath : CString} {file : List UInt8} {env : Environment}
    {db : DbEngine} (opened : (dbInit dataPath file env).1 = .ok db) :
    readFile file = .ok db.rows := by
  unfold dbInit at opened
  split at opened
  · cases opened
  · split at opened
    · cases opened
    · split at opened
      · cases opened
      · obtain ⟨records, read, _, rows, _⟩ :=
          @loadLines_ok _ (fun _ => True) (fun _ _ => trivial) _ _ _ trivial opened
        rw [readFile, read, rows]
        rfl

theorem Begins.ne_nil {line : List UInt8} {id age : Int} {name rest : List UInt8}
    (begins : Begins line id name age rest) : line ≠ [] := by
  obtain ⟨_, _, _, _, _, _, rfl⟩ := begins
  exact List.append_ne_nil_of_right_ne_nil _ (List.cons_ne_nil _ _)

/-- Plain lines say what the records are that were read from them. -/
theorem denote_of_lineReads {lines : List (List UInt8)} {parts : List (List Record)}
    (reads : List.Forall₂ LineRead lines parts) (plain : ∀ line ∈ lines, Plain line) :
    List.Forall₂ Denotes (lines.filter (· ≠ [])) parts.flatten := by
  induction reads with
  | nil => exact .nil
  | @cons line part lines parts read reads ih =>
      have others := ih fun later member => plain later (List.mem_cons_of_mem _ member)
      rcases eq_or_ne line [] with rfl | nonempty
      · rw [read.empty]
        exact others
      · obtain ⟨record, rfl, denotes⟩ :=
          read.denotes_of_plain nonempty (plain line List.mem_cons_self)
        rw [List.filter_cons, if_pos (decide_eq_true nonempty)]
        exact .cons denotes others

/-- **What a loaded file says.** The rows of an engine that `db_init` opened are what the
lines of the file say if and only if every line is plain. -/
theorem faithful_iff {dataPath : CString} {file : List UInt8} {env : Environment} {db : DbEngine}
    (opened : (dbInit dataPath file env).1 = .ok db) :
    Faithful file db.rows ↔ ∀ line ∈ fileLines file, Plain line := by
  obtain ⟨parts, rows, reads⟩ := exists_lineReads (readFile_of_opened opened)
  rw [Faithful, rows]
  constructor
  · intro faithful line member
    rcases eq_or_ne line [] with rfl | nonempty
    · refine ⟨Nat.zero_le _, List.not_mem_nil, ?_⟩
      intro _ _ _ _ begins
      exact absurd rfl (begins.ne_nil)
    · obtain ⟨part, read⟩ := exists_of_forall₂ reads line member
      obtain ⟨record, denotes⟩ := exists_of_forall₂ faithful line
        (List.mem_filter.mpr ⟨member, decide_eq_true nonempty⟩)
      exact read.plain_of_denotes denotes
  · exact denote_of_lineReads reads

/-- White space, signs and empty lines are no obstacle. -/
theorem faithful_iff_blanks :
    let file := ascii "\n 7,ann smith, +30 \r\n"
    Faithful file (openedEngine (CString.ofBuffer (ascii "users.csv")) file .calm).rows := by
  have denotes : Denotes (ascii " 7,ann smith, +30 \r")
      { id := 7, name := (CString.ofBuffer (ascii "ann smith")).truncate 127, age := 30 } := by
    refine ⟨ascii " 7", ascii " +30 \r", integerField_of_numeral ?_, by decide,
      ⟨ascii " +30", ascii " \r", ?_, by decide +kernel, by decide⟩, by decide⟩
    · exact ⟨ascii " ", by decide +kernel, _, List.mem_cons_self, ascii "7", by decide,
        by decide +kernel, by decide, by decide⟩
    · exact ⟨ascii " ", by decide +kernel, _, .tail _ List.mem_cons_self, ascii "30", by decide,
        by decide +kernel, by decide, by decide⟩
  apply (@faithful_iff (CString.ofBuffer (ascii "users.csv"))
    (ascii "\n 7,ann smith, +30 \r\n") .calm _ (dbInit_of_isOk (by decide +kernel))).mpr
  have lines : fileLines (ascii "\n 7,ann smith, +30 \r\n") =
      [[], ascii " 7,ann smith, +30 \r", []] := by decide
  have empty : Plain [] :=
    ⟨Nat.zero_le _, List.not_mem_nil, fun _ _ _ _ begins => absurd rfl begins.ne_nil⟩
  rw [lines]
  intro line member
  simp only [List.mem_cons, List.not_mem_nil, or_false] at member
  rcases member with rfl | rfl | rfl
  · exact empty
  · exact ⟨by decide, by decide, fun _ _ _ _ => exact_of_denotes denotes⟩
  · exact empty

/-- Text behind the age is dropped, and an id that is too large becomes another one. -/
theorem faithful_fails_years_and_large :
    let path := CString.ofBuffer (ascii "users.csv")
    let years := ascii "1,ann,2 years\n"
    let large := ascii "4294967297,ann,30\n"
    (∃ db, (dbInit path years .calm).1 = .ok db ∧ ¬ Faithful years db.rows) ∧
      ∃ db, (dbInit path large .calm).1 = .ok db ∧ ¬ Faithful large db.rows := by
  have one : Numeral (ascii "1") 1 :=
    numeral_of_digits (by decide) (by decide +kernel) (by decide)
  refine ⟨⟨_, dbInit_of_isOk (by decide +kernel), fun faithful => ?_⟩,
    ⟨_, dbInit_of_isOk (by decide +kernel), fun faithful => ?_⟩⟩
  · obtain ⟨record, denotes⟩ :=
      exists_of_forall₂ faithful (ascii "1,ann,2 years") (by decide)
    have two : Numeral (ascii "2") 2 :=
      numeral_of_digits (by decide) (by decide +kernel) (by decide)
    have begins : Begins (ascii "1,ann,2 years") 1 (ascii "ann") 2 (ascii " years") :=
      ⟨ascii "1", ascii "2", one, by decide, two,
        noDigitFirst_cons _ rfl (ascii "years"), by decide⟩
    have blank := (exact_of_denotes denotes begins).2.2
    revert blank
    decide
  · obtain ⟨record, denotes⟩ :=
      exists_of_forall₂ faithful (ascii "4294967297,ann,30") (by decide)
    have id : Numeral (ascii "4294967297") 4294967297 :=
      numeral_of_digits (by decide) (by decide +kernel) (by decide)
    have age : Numeral (ascii "30") 30 :=
      numeral_of_digits (by decide) (by decide +kernel) (by decide)
    have begins : Begins (ascii "4294967297,ann,30") 4294967297 (ascii "ann") 30 [] :=
      ⟨ascii "4294967297", ascii "30", id, by decide, age, nofun, by decide⟩
    have fits := (exact_of_denotes denotes begins).1.2
    exact absurd fits (by decide)

end MiniDbms.Db
