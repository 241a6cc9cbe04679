import MiniDbms.Db.Table
import MiniDbms.Util.JsonEscape

/-! # The rows of an answer can be read

The arrays that the engine answers are written with an escape for every byte that
needs one and a comma before every row and member but the first. Whatever the
names, a JSON reader gets the selected columns of the rows back, in order
(`MiniDbms.Db.decodeRows_arrayJson`).
-/

namespace MiniDbms.Db

open Foundation Util

/-- The four digits of a `\u` escape give the byte back. -/
theorem readUnicode_hexDigits {byte : UInt8} (control : byte < 32) (rest : List UInt8) :
    readUnicode (48 :: 48 :: hexDigit (byte / 16) :: hexDigit (byte % 16) :: rest) =
      some ([byte], rest) := by
  have bound : byte.toNat < 32 := UInt8.lt_iff_toNat_lt.mp control
  have zero : hexValue 48 = some 0 := by decide
  obtain ⟨high, low⟩ := hexValue_hexDigits control
  have whole : 4096 * 0 + 256 * 0 + 16 * (byte.toNat / 16) + byte.toNat % 16 = byte.toNat := by
    omega
  simp only [readUnicode, zero, high, low, Option.bind_eq_bind, Option.bind_some, whole]
  rw [if_neg (by omega), utf8, if_pos (by omega), UInt8.ofNat_toNat]

/-- Every byte is read back from its escape. -/
theorem readCharacter_escapeByte (byte : UInt8) (rest : List UInt8) :
    readCharacter (escapeByte byte ++ rest) = some ([byte], rest) := by
  unfold escapeByte
  split
  · next same => rw [same]; rfl
  · split
    · next same => rw [same]; rfl
    · next notBackslash =>
        split
        · next same => rw [same]; rfl
        · split
          · next same => rw [same]; rfl
          · split
            · next same => rw [same]; rfl
            · split
              · next control => exact readUnicode_hexDigits control rest
              · next plain =>
                  exact (if_neg notBackslash).trans (if_neg plain)

/-- The escape of a byte does not end the string. -/
theorem head_escapeByte (byte : UInt8) :
    (escapeByte byte).head? ≠ some 34 ∧ escapeByte byte ≠ [] := by
  unfold escapeByte
  repeat' split
  all_goals simp_all

theorem readString_escape {fuel : Nat} {text : List UInt8} (enough : text.length < fuel)
    (rest : List UInt8) : readString fuel (escape text ++ 34 :: rest) = some (text, rest) :=
  readString_flatMap (fun byte _ => ⟨(head_escapeByte byte).1, (head_escapeByte byte).2,
    readCharacter_escapeByte byte⟩) enough rest

/-- What a reader gets for one column of a row. -/
def member (record : Record) : DbColumn → List UInt8 × JsonScalar
  | .id => (ascii "id", .number record.id.toInt)
  | .name => (ascii "name", .text record.name.bytes)
  | .age => (ascii "age", .number record.age.toInt)

/-- A number ends where its member does. -/
theorem ends_number {rest : List UInt8} (stop : rest.head? = some comma ∨ rest.head? = some 125) :
    NoDigitFirst rest ∧ hasFraction rest = false := by
  unfold NoDigitFirst hasFraction
  rcases stop with first | first
  · rw [first]
    exact ⟨fun byte member => Option.mem_some.mp member ▸ rfl, rfl⟩
  · rw [first]
    exact ⟨fun byte member => Option.mem_some.mp member ▸ rfl, rfl⟩

/-- A key of the source and its number. -/
theorem readMember_number {fuel : Nat} {key : List UInt8}
    (plain : key.all isPlain = true) (enough : key.length < fuel)
    (value : Int) {rest : List UInt8} (stop : rest.head? = some comma ∨ rest.head? = some 125) :
    readMember fuel (34 :: (key ++ 34 :: 58 :: (formatInt value ++ rest))) =
      some ((key, .number value), rest) := by
  obtain ⟨noDigit, whole⟩ := ends_number stop
  exact readMember_parts (readString_plain plain enough _) (skipBlanks_formatInt value rest)
    (readScalar_number fuel (readNumber_formatInt value noDigit whole))

/-- The key `"name"` and its string. -/
theorem readMember_name {fuel : Nat} {text : List UInt8} (keyFits : 4 < fuel)
    (enough : text.length < fuel) (rest : List UInt8) :
    readMember fuel (34 :: (ascii "name" ++ 34 :: 58 :: 34 :: (escape text ++ 34 :: rest))) =
      some ((ascii "name", .text text), rest) := by
  refine readMember_parts (readString_plain rfl keyFits _) ?_ ?_
  · exact skipBlanks_cons (by decide) _
  · rw [readScalar, List.head?_cons, if_pos rfl, List.tail_cons, readString_escape enough]
    rfl

/-- Escaping makes no text shorter. -/
theorem length_le_escape (text : List UInt8) : text.length ≤ (escape text).length := by
  induction text with
  | nil => exact Nat.le_refl 0
  | cons byte text ih =>
      have one := List.length_pos_of_ne_nil (head_escapeByte byte).2
      simp only [escape, List.flatMap_cons, List.length_append, List.length_cons] at ih ⊢
      omega

/-- Every member is read back. -/
theorem itemReads_fieldJson {fuel : Nat} (record : Record) (column : DbColumn)
    (enough : (fieldJson record column).length ≤ fuel) :
    ItemReads (readMember fuel) 125 (fieldJson record) (member record) column where
  solid := by
    cases column <;> exact ⟨34, _, rfl, by decide, by decide⟩
  reads := by
    intro rest stop
    cases column with
    | id =>
        have keyFits : 2 < fuel := by
          simp only [fieldJson, List.length_append, show (ascii "\"id\":").length = 5 from rfl]
            at enough
          omega
        exact @readMember_number fuel (ascii "id") rfl keyFits record.id.toInt rest stop
    | name =>
        have nameFits := length_le_escape record.name.bytes
        simp only [fieldJson, List.length_append, show (ascii "\"name\":").length = 7 from rfl,
          show (ascii "\"").length = 1 from rfl] at enough
        have spelled : fieldJson record .name ++ rest = 34 :: (ascii "name" ++
            34 :: 58 :: 34 :: (escape record.name.bytes ++ 34 :: rest)) := by
          simp only [fieldJson, List.append_assoc]
          rfl
        rw [spelled]
        exact readMember_name (by omega) (by omega) rest
    | age =>
        have keyFits : 3 < fuel := by
          simp only [fieldJson, List.length_append, show (ascii "\"age\":").length = 6 from rfl]
            at enough
          omega
        exact @readMember_number fuel (ascii "age") rfl keyFits record.age.toInt rest stop

theorem fieldsJson_joined (record : Record) (columns : List DbColumn) :
    fieldsJson record false columns = joined (fieldJson record) columns :=
  joined_of_loop (fun _ => rfl) (fun _ _ _ => rfl) columns

theorem rowsJson_joined (columns : List DbColumn) (rows : List Record) :
    rowsJson columns false rows = joined (rowJson columns) rows :=
  joined_of_loop (fun _ => rfl) (fun _ _ _ => rfl) rows

/-- Every row is read back. -/
theorem itemReads_rowJson {fuel : Nat} (columns : List DbColumn) (record : Record)
    (enough : (rowJson columns record).length ≤ fuel) :
    ItemReads (readObject fuel) 93 (rowJson columns) (fun record => columns.map (member record))
      record where
  solid := ⟨123, _, rfl, by decide, by decide⟩
  reads := by
    intro rest _
    have spelled : rowJson columns record ++ rest =
        123 :: (joined (fieldJson record) columns ++ 125 :: rest) := by
      rw [rowJson, fieldsJson_joined, List.append_assoc, List.append_assoc]
      rfl
    have total : (joined (fieldJson record) columns).length + 2 ≤ fuel := by
      rw [rowJson, fieldsJson_joined, List.length_append, List.length_append] at enough
      exact (Nat.le_of_eq (by simp [ascii]; omega)).trans enough
    have count := count_le_joined (fieldJson record) columns
    rw [spelled, readObject, readByte_cons]
    exact readSequence_joined ⟨by decide, by decide⟩
      (fun column shown => itemReads_fieldJson record column
        ((length_le_joined shown).trans (by omega)))
      (by omega) rest

/-- **An answered array is read back**, whatever bytes the names are made of. -/
theorem decodeRows_arrayJson (columns : List DbColumn) (rows : List Record) :
    decodeRows (arrayJson columns rows) =
      some (rows.map fun record => columns.map (member record)) := by
  have spelled : arrayJson columns rows = 91 :: (joined (rowJson columns) rows ++ 93 :: []) := by
    rw [arrayJson, rowsJson_joined, List.append_assoc]
    rfl
  have count := count_le_joined (rowJson columns) rows
  have opening : skipBlanks (91 :: (joined (rowJson columns) rows ++ 93 :: [])) =
      91 :: (joined (rowJson columns) rows ++ 93 :: []) := skipBlanks_cons (by decide) _
  have read := @readSequence_joined _ _ (readObject (arrayJson columns rows).length) 93
    (rowJson columns) (fun record => columns.map (member record)) ⟨by decide, by decide⟩ rows
    (fun record present => itemReads_rowJson columns record (by
      have inside := @length_le_joined _ (rowJson columns) rows record present
      rw [spelled, List.length_cons, List.length_append]
      omega))
    (arrayJson columns rows).length
    (by rw [spelled, List.length_cons, List.length_append]; simp only [List.length_cons]; omega) []
  rw [decodeRows]
  rw [spelled] at read ⊢
  simp only [opening, readByte_cons, Option.bind_eq_bind, Option.bind_some, read]
  rfl

end MiniDbms.Db
