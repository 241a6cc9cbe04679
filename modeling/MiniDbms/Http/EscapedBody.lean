import MiniDbms.Http.JsonBody
import MiniDbms.Sql.Grammar
import MiniDbms.Util.JsonEscape

/-! # SQL text that was escaped into a JSON body

What `json_escape_dup` writes is a JSON string, and `http_extract_sql` reads it back
unless it holds a control character that only `\u` could spell or is too long
(`MiniDbms.Http.httpExtractSql_escaped`). The parser does not see whether a text came as
it is or in JSON (`MiniDbms.Http.bodies_agree`).
-/

namespace MiniDbms.Http

open Foundation Sql Util

/-- The character that `json_escape_dup` spells. -/
def escapedCharacter (byte : UInt8) : JsonChar :=
  if quote : byte = 34 then .escape 34 (by decide)
  else if escape : byte = 92 then .escape 92 (by decide)
  else if byte = 10 then .escape 110 (by decide)
  else if byte = 13 then .escape 114 (by decide)
  else if byte = 9 then .escape 116 (by decide)
  else if control : byte < 32 then
    .unicode [48, 48, hexDigit (byte / 16), hexDigit (byte % 16)] rfl (by
      obtain ⟨high, low⟩ := hexValue_hexDigits control
      simp only [List.forall_mem_cons, high, low, Option.isSome_some, List.not_mem_nil,
        IsEmpty.forall_iff, implies_true, and_true]
      decide)
  else .plain byte ⟨UInt8.not_lt.mp control, quote, escape⟩

theorem spelling_escapedCharacter (byte : UInt8) :
    (escapedCharacter byte).spelling = escapeByte byte := by
  unfold escapedCharacter escapeByte
  split_ifs <;> rfl

/-- A byte that can be sent in JSON: printable, or one of the three control characters with
an escape of one letter. -/
def Sendable (byte : UInt8) : Prop := 32 ≤ byte ∨ byte = 9 ∨ byte = 10 ∨ byte = 13

instance decidableSendable (byte : UInt8) : Decidable (Sendable byte) :=
  inferInstanceAs (Decidable (_ ∨ _ ∨ _ ∨ _))

/-- Over the bytes of a text, rather than over all bytes. -/
instance decidableForallSendable (text : List UInt8) :
    Decidable (∀ byte ∈ text, Sendable byte) :=
  List.decidableBAll Sendable text

theorem sqlChar_escapedCharacter (byte : UInt8) :
    sqlChar (escapedCharacter byte) = if Sendable byte then some byte else none := by
  unfold escapedCharacter
  split
  · next same => subst same; rfl
  · split
    · next same => subst same; rfl
    · split
      · next same => subst same; rfl
      · next notFeed =>
          split
          · next same => subst same; rfl
          · next notReturn =>
              split
              · next same => subst same; rfl
              · next notTab =>
                  split
                  · next control =>
                      have absent : ¬ Sendable byte := by
                        rintro (large | same | same | same)
                        · exact absurd control (UInt8.not_lt.mpr large)
                        · exact notTab same
                        · exact notFeed same
                        · exact notReturn same
                      exact (if_neg absent).symm
                  · next large => exact (if_pos (Or.inl (UInt8.not_lt.mp large))).symm

/-- The text as a JSON string. -/
def escapedString (text : List UInt8) : JsonString := text.map escapedCharacter

theorem spell_escapedString (text : List UInt8) : spell (escapedString text) = escape text := by
  simp only [spell, escapedString, escape, List.flatMap_map, spelling_escapedCharacter]

theorem decodeSql_escapedString (text : List UInt8) :
    decodeSql (escapedString text) =
      if ∀ byte ∈ text, Sendable byte then some text else none := by
  induction text with
  | nil =>
      rw [if_pos (List.forall_mem_nil Sendable)]
      rfl
  | cons byte text ih =>
      rw [escapedString, List.map_cons, decodeSql_cons, sqlChar_escapedCharacter, ← escapedString,
        ih]
      by_cases sendable : Sendable byte
      · by_cases others : ∀ byte ∈ text, Sendable byte
        · rw [if_pos sendable, if_pos others, if_pos (List.forall_mem_cons.mpr ⟨sendable, others⟩)]
          rfl
        · rw [if_pos sendable, if_neg others,
            if_neg fun all => others (List.forall_mem_cons.mp all).2]
          rfl
      · rw [if_neg sendable, if_neg fun all => sendable (List.forall_mem_cons.mp all).1]
        rfl

/-- `{"sql":"E"}` with the escaped text for `E`. -/
def escapedObject (text : List UInt8) : JsonText where
  before := noBlanks
  members := [.compact sqlCharacters (.string (escapedString text))]
  after := noBlanks

/-- What the client writes. -/
theorem text_escapedObject (text : List UInt8) :
    (escapedObject text).text = ascii "\x7b\"sql\":\"" ++ (escape text ++ ascii "\"\x7d") := by
  have value := spell_escapedString text
  simp only [JsonText.text, escapedObject, membersText, JsonMember.text, JsonMember.behindKey,
    JsonMember.compact, JsonValue.text, quoted, value, List.nil_append, List.append_assoc,
    List.cons_append]
  rfl

/-- What `http_extract_sql` reads from a JSON body with an escaped text. -/
theorem extract_escaped {text body : CString} {escaped : List UInt8} {heap : Heap}
    {sqlSize : Nat} (positive : 1 ≤ sqlSize)
    (escapes : (jsonEscapeDup text.bytes heap).1 = .ok escaped)
    (isBody : body.bytes = ascii "\x7b\"sql\":\"" ++ (escaped ++ ascii "\"\x7d")) :
    (httpExtractSql body sqlSize).toOption =
      if (∀ byte ∈ text.bytes, Sendable byte) ∧ text.bytes.length < sqlSize then some text
      else none := by
  obtain rfl := escaped_of_jsonEscapeDup escapes
  have isText : body.bytes = (escapedObject text.bytes).text := by
    rw [isBody, text_escapedObject]
  have key : looksLikeKey sqlKey sqlCharacters = true := by decide
  have found : sought (escapedObject text.bytes).members =
      some (some (.string (escapedString text.bytes))) := if_pos key
  rw [httpExtractSql_object positive isText, found]
  change (decodeWithin sqlSize (escapedString text.bytes)).map CString.ofBuffer = _
  rw [decodeWithin, decodeSql_escapedString]
  by_cases sendable : ∀ byte ∈ text.bytes, Sendable byte
  · rw [if_pos sendable, Option.filter_some]
    by_cases fits : text.bytes.length < sqlSize
    · rw [if_pos (decide_eq_true fits), if_pos ⟨sendable, fits⟩, Option.map_some,
        CString.ofBuffer_self]
    · rw [if_neg (by simpa using fits), if_neg fun both => fits both.2]
      rfl
  · rw [if_neg sendable, if_neg fun both => sendable both.1]
    rfl

/-- A result that is not an error. -/
theorem toOption_eq_some_iff {α : Type} {result : Except (List UInt8) α} {a : α} :
    result.toOption = some a ↔ result = .ok a := by
  cases result with
  | error message => exact iff_of_false nofun nofun
  | ok other => exact ⟨fun same => congrArg Except.ok (Option.some.inj same),
      fun same => congrArg some (Except.ok.inj same)⟩

/-- **The round trip.** From a JSON body with an escaped text, `http_extract_sql` gives the
text back if all its bytes can be sent and it fits into the buffer, and fails otherwise. -/
theorem httpExtractSql_escaped {text body : CString} {escaped : List UInt8} {heap : Heap}
    {sqlSize : Nat} (positive : 1 ≤ sqlSize)
    (escapes : (jsonEscapeDup text.bytes heap).1 = .ok escaped)
    (isBody : body.bytes = ascii "\x7b\"sql\":\"" ++ (escaped ++ ascii "\"\x7d")) :
    if (∀ byte ∈ text.bytes, Sendable byte) ∧ text.bytes.length < sqlSize then
      httpExtractSql body sqlSize = .ok text
    else ∃ message, httpExtractSql body sqlSize = .error message := by
  have read := extract_escaped positive escapes isBody
  split
  · next domain =>
      rw [if_pos domain] at read
      exact toOption_eq_some_iff.mp read
  · next outside =>
      rw [if_neg outside] at read
      rcases result : httpExtractSql body sqlSize with message | json
      · exact ⟨message, rfl⟩
      · rw [result] at read
        cases read

/-- A name with a quote, a backslash and a line feed, into a buffer that it just fits. -/
theorem httpExtractSql_escaped_punctuation :
    httpExtractSql (CString.ofBuffer (ascii "\x7b\"sql\":\"a\\\"\\\\\\n\"\x7d")) 5 =
      .ok (CString.ofBuffer (ascii "a\"\\\n")) := by
  let text := CString.ofBuffer (ascii "a\"\\\n")
  let body := CString.ofBuffer (ascii "\x7b\"sql\":\"a\\\"\\\\\\n\"\x7d")
  have escapes : (jsonEscapeDup text.bytes .generous).1 = .ok (escape text.bytes) := by
    decide +kernel
  have isBody : body.bytes =
      ascii "\x7b\"sql\":\"" ++ (escape text.bytes ++ ascii "\"\x7d") := by decide +kernel
  have domain : (∀ byte ∈ text.bytes, Sendable byte) ∧ text.bytes.length < 5 := by
    decide +kernel
  have round := @httpExtractSql_escaped text body _ _ 5 (Nat.succ_pos 4) escapes isBody
  rwa [if_pos domain] at round

/-- The raw body without the white space around it. -/
theorem httpExtractSql_raw {text : CString} {sqlSize : Nat}
    (begins : ∃ first ∈ (text.bytes.dropWhile isSpace).head?, first ≠ 123)
    (fits : text.bytes.length < sqlSize) :
    ∃ raw, httpExtractSql text sqlSize = .ok raw ∧
      raw.bytes = (text.bytes.dropWhile isSpace).rdropWhile isSpace := by
  obtain ⟨first, isFirst, notBrace⟩ := begins
  have raw : ¬ (text.bytes.dropWhile isSpace).head? = some 123 := by
    rw [Option.mem_def.mp isFirst, Option.some.injEq]
    exact notBrace
  have notSpace := dropWhile_stops isSpace text.bytes first isFirst
  have sublist : ((text.bytes.dropWhile isSpace).rdropWhile isSpace).Sublist text.bytes :=
    (List.rdropWhile_prefix _ _).sublist.trans (List.dropWhile_sublist _)
  have nonempty : ((text.bytes.dropWhile isSpace).rdropWhile isSpace).length ≠ 0 := by
    rw [Ne, List.length_eq_zero_iff, List.rdropWhile_eq_nil_iff]
    intro all
    rw [all first (List.mem_of_mem_head? isFirst)] at notSpace
    cases notSpace
  have short := sublist.length_le
  refine ⟨CString.ofBuffer ((text.bytes.dropWhile isSpace).rdropWhile isSpace), ?_,
    CString.ofBuffer_bytes fun member => text.noNul (sublist.subset member)⟩
  simp only [httpExtractSql]
  rw [if_neg raw]
  simp only [copyRawSql]
  rw [if_neg nonempty, if_neg (by omega)]
  rfl

/-- **Raw and JSON bodies mean the same statement.** -/
theorem bodies_agree {text body : CString} {escaped : List UInt8} {heap : Heap}
    (fits : text.bytes.length ≤ 4095)
    (begins : ∃ first ∈ (text.bytes.dropWhile isSpace).head?, first ≠ 123)
    (sendable : ∀ byte ∈ text.bytes, Sendable byte)
    (escapes : (jsonEscapeDup text.bytes heap).1 = .ok escaped)
    (isBody : body.bytes = ascii "\x7b\"sql\":\"" ++ (escaped ++ ascii "\"\x7d")) :
    ∃ raw json, httpExtractSql text 4096 = .ok raw ∧ httpExtractSql body 4096 = .ok json ∧
      (sqlParse raw).toOption = (sqlParse json).toOption := by
  obtain ⟨raw, extracted, isTrimmed⟩ := @httpExtractSql_raw text 4096 begins (by omega)
  have read := extract_escaped (by decide : 1 ≤ 4096) escapes isBody
  rw [if_pos ⟨sendable, by omega⟩] at read
  refine ⟨raw, text, extracted, toOption_eq_some_iff.mp read, ?_⟩
  apply Option.ext
  intro stmt
  rw [toOption_eq_some_iff, toOption_eq_some_iff]
  exact sqlParse_trim isTrimmed

/-- A select with white space around it. -/
theorem bodies_agree_select :
    ∃ raw json, httpExtractSql (CString.ofBuffer (ascii "\tselect * from users ; \n")) 4096 =
        .ok raw ∧
      httpExtractSql (CString.ofBuffer
        (ascii "\x7b\"sql\":\"\\tselect * from users ; \\n\"\x7d")) 4096 = .ok json ∧
      (sqlParse raw).toOption = (sqlParse json).toOption :=
  @bodies_agree (CString.ofBuffer (ascii "\tselect * from users ; \n"))
    (CString.ofBuffer (ascii "\x7b\"sql\":\"\\tselect * from users ; \\n\"\x7d"))
    (escape (ascii "\tselect * from users ; \n")) .generous (by decide +kernel)
    ⟨115, by decide +kernel, by decide⟩ (by decide +kernel) (by decide +kernel)
    (by decide +kernel)

end MiniDbms.Http
