import MiniDbms.Foundation.JsonText
import MiniDbms.Http.ExtractSql

/-! # The `sql` member of a JSON body

`extract_json_sql` takes the first `"sql"` in the body for the key. In the text of a flat
object this is the `sql` member unless an earlier string looks like the key
(`MiniDbms.Http.extractsMember_iff`).
-/

namespace MiniDbms.Http

open Foundation

/-- `sql`. -/
def sqlKey : List UInt8 := ascii "sql"

theorem sqlKey_letters : ∀ byte ∈ sqlKey, isAlpha byte = true := by decide +kernel

theorem sqlKey_ne_nil : sqlKey ≠ [] := nofun

/-- The key, spelled without escapes. -/
def sqlCharacters : JsonString :=
  [.plain 115 (by decide), .plain 113 (by decide), .plain 108 (by decide)]

/-- What a character stands for, if it is spelled in one of the ways that the SQL text of a
request may use: all escapes of one letter but `\b` and `\f`. -/
def sqlChar : JsonChar → Option UInt8
  | .plain byte _ => some byte
  | .escape letter _ => if letter = 98 ∨ letter = 102 then none else simpleEscape letter
  | .unicode _ _ _ => none

/-- The SQL text that a string spells. -/
def decodeSql (string : JsonString) : Option (List UInt8) := string.mapM sqlChar

/-- `extract_json_sql` and JSON agree on the escapes that both know. -/
theorem jsonEscape_eq {letter : UInt8} (known : (simpleEscape letter).isSome) :
    jsonEscape letter = (if letter = 98 ∨ letter = 102 then none else simpleEscape letter) ∧
      jsonEscape letter ≠ some 0 := by
  have agree : ∀ letter ∈ [34, 92, 47, 98, 102, 110, 114, 116],
      jsonEscape letter = (if letter = 98 ∨ letter = 102 then none else simpleEscape letter) ∧
        jsonEscape letter ≠ some 0 := by decide +kernel
  apply agree
  simp only [simpleEscape, List.lookup_isSome_iff] at known
  simpa using known

/-- The characters of SQL text are not NUL. -/
theorem sqlChar_ne_zero {character : JsonChar} : sqlChar character ≠ some 0 := by
  rcases character with ⟨byte, allowed⟩ | ⟨letter, known⟩ | ⟨digits, four, hex⟩
  · rintro ⟨⟩
    exact absurd allowed.1 (by decide)
  · rw [sqlChar, ← (jsonEscape_eq known).1]
    exact (jsonEscape_eq known).2
  · intro impossible
    cases impossible

theorem decodeSql_cons (character : JsonChar) (string : JsonString) :
    decodeSql (character :: string) =
      (sqlChar character).bind fun byte => (decodeSql string).map (byte :: ·) := by
  simp only [decodeSql, List.mapM_cons, Option.map_eq_bind]
  rfl

/-- A decoded string has no NUL. -/
theorem nul_not_mem_decodeSql {string : JsonString} {sql : List UInt8}
    (decoded : decodeSql string = some sql) : 0 ∉ sql := by
  induction string generalizing sql with
  | nil =>
      cases decoded
      exact List.not_mem_nil
  | cons character string ih =>
      rw [decodeSql_cons] at decoded
      obtain ⟨byte, meant, decoded⟩ := Option.bind_eq_some_iff.mp decoded
      obtain ⟨others, further, rfl⟩ := Option.map_eq_some_iff.mp decoded
      rw [List.mem_cons, not_or]
      refine ⟨?_, ih further⟩
      rintro rfl
      exact sqlChar_ne_zero meant

/-- The SQL text, if it fits into the buffer. -/
def decodeWithin (sqlSize : Nat) (string : JsonString) : Option (List UInt8) :=
  (decodeSql string).filter (·.length < sqlSize)

/-- A round of the last loop stores a byte, if there is room for it. -/
def storeByte (sqlSize : Nat) (sql : List UInt8) (byte : UInt8) (text : List UInt8) :
    Except (List UInt8) (List UInt8) :=
  if sqlSize ≤ sql.length + 1 then .error (ascii "sql value is too long")
  else copyJsonString sqlSize (sql ++ [byte]) text

theorem copyJsonString_plain {sqlSize : Nat} {sql text : List UInt8} {byte : UInt8}
    (notQuote : byte ≠ 34) (notEscape : byte ≠ 92) :
    copyJsonString sqlSize sql (byte :: text) = storeByte sqlSize sql byte text := by
  rw [copyJsonString.eq_def]
  exact (if_neg notQuote).trans (if_neg notEscape)

theorem copyJsonString_escape (sqlSize : Nat) (sql text : List UInt8) (letter : UInt8) :
    copyJsonString sqlSize sql (92 :: letter :: text) =
      match jsonEscape letter with
      | none => .error (ascii "unsupported JSON escape in sql value")
      | some byte => storeByte sqlSize sql byte text := by
  rw [copyJsonString.eq_def]
  rfl

/-- The last loop reads a string up to its closing quote. -/
theorem copyJsonString_spell {sqlSize : Nat} (string : JsonString) {sql : List UInt8}
    (room : sql.length < sqlSize) (rest : List UInt8) :
    (copyJsonString sqlSize sql (spell string ++ 34 :: rest)).toOption =
      ((decodeSql string).map (sql ++ ·)).filter (·.length < sqlSize) := by
  induction string generalizing sql with
  | nil =>
      have closed : copyJsonString sqlSize sql (34 :: rest) = .ok sql := by
        rw [copyJsonString.eq_def]
        rfl
      change (copyJsonString sqlSize sql (34 :: rest)).toOption = (some (sql ++ [])).filter _
      rw [closed, List.append_nil, Option.filter_some, if_pos (decide_eq_true room)]
      rfl
  | cons character string ih =>
      have stored : ∀ byte : UInt8,
          (storeByte sqlSize sql byte (spell string ++ 34 :: rest)).toOption =
            (((decodeSql string).map (byte :: ·)).map (sql ++ ·)).filter
              (·.length < sqlSize) := by
        intro byte
        rw [Option.map_map, storeByte]
        split
        · next long =>
            cases decodeSql string with
            | none => rfl
            | some others =>
                rw [Option.map_some, Option.filter_some, if_neg]
                · rfl
                · rw [Bool.not_eq_true, decide_eq_false_iff_not, Function.comp_apply,
                    List.length_append, List.length_cons]
                  omega
        · next short =>
            rw [ih (by rw [List.length_append, List.length_singleton]; omega)]
            congr 2
            funext others
            simp only [Function.comp_apply, List.append_assoc, List.singleton_append]
      rw [decodeSql_cons, spell_cons, List.append_assoc]
      rcases character with ⟨byte, allowed⟩ | ⟨letter, known⟩ | ⟨digits, four, hex⟩
      · rw [JsonChar.spelling, List.singleton_append,
          copyJsonString_plain allowed.2.1 allowed.2.2]
        exact stored byte
      · rw [sqlChar, ← (jsonEscape_eq known).1, JsonChar.spelling, List.cons_append,
          List.cons_append, List.nil_append, copyJsonString_escape]
        cases jsonEscape letter with
        | none => rfl
        | some byte => exact stored byte
      · rw [JsonChar.spelling, List.cons_append, List.cons_append, copyJsonString_escape]
        rfl

/-- The string behind the opening quote of the value. -/
theorem copyJsonString_decodeWithin {sqlSize : Nat} (positive : 0 < sqlSize) (string : JsonString)
    (rest : List UInt8) :
    (copyJsonString sqlSize [] (spell string ++ 34 :: rest)).toOption =
      decodeWithin sqlSize string := by
  rw [copyJsonString_spell string positive]
  change ((decodeSql string).map id).filter _ = _
  rw [Option.map_id]
  rfl

/-- `extract_json_sql` behind the key that it has found. -/
def readValue (sqlSize : Nat) (text : List UInt8) : Except (List UInt8) (List UInt8) :=
  match text.dropWhile isSpace with
  | 58 :: text =>
      match text.dropWhile isSpace with
      | 34 :: text => copyJsonString sqlSize [] text
      | _ => .error (ascii "sql value must be a JSON string")
  | _ => .error (ascii "expected ':' after sql key")

/-- What is read behind the first `"sql"` of the text, if that is possible. -/
def readSql (sqlSize : Nat) (text : List UInt8) : Option (List UInt8) :=
  (behind (keyText sqlKey) text).bind fun text => (readValue sqlSize text).toOption

/-- The extraction without its error messages. -/
theorem extractJsonSql_toOption (body : List UInt8) (sqlSize : Nat) :
    (extractJsonSql body sqlSize).toOption = readSql sqlSize body := by
  have quoted : keyText sqlKey = ascii "\"sql\"" := rfl
  rw [extractJsonSql, readSql, behind, quoted]
  cases strstr (ascii "\"sql\"") body <;> rfl

/-- Behind the key of a member, its string is read. -/
theorem readValue_behindKey {sqlSize : Nat} (positive : 0 < sqlSize) (member : JsonMember)
    (more : List UInt8) :
    (readValue sqlSize (member.behindKey ++ more)).toOption =
      member.value.string?.bind (decodeWithin sqlSize) := by
  have colon : (member.behindKey ++ more).dropWhile isSpace =
      58 :: (member.beforeValue.1 ++ (member.value.text ++ (member.afterValue.1 ++ more))) := by
    simp only [JsonMember.behindKey, List.append_assoc, dropWhile_blanks, List.cons_append]
    rfl
  rw [readValue, colon]
  simp only [dropWhile_blanks]
  rcases member.value with characters | number | _ | _
  · rw [JsonValue.text, quoted, List.cons_append, List.append_assoc]
    exact copyJsonString_decodeWithin positive characters _
  · obtain ⟨lead, others, begins, notSpace, notQuote⟩ := number_begins number
    rw [JsonValue.text, begins, List.cons_append, List.dropWhile_cons, notSpace,
      if_neg Bool.false_ne_true]
    split
    · next text same =>
        exact absurd (List.cons.inj same).1 notQuote
    · rfl
  · rename_i truth
    cases truth <;> rfl
  · rfl

/-- Behind a value there is no colon. -/
theorem readValue_behindValue (sqlSize : Nat) (blanks : Blanks) {stop : UInt8}
    (ends : stop = 44 ∨ stop = 125) (more : List UInt8) :
    (readValue sqlSize (blanks.1 ++ stop :: more)).toOption = none := by
  rw [readValue, dropWhile_blanks]
  rcases ends with rfl | rfl <;> rfl

/-- What the search for the key ends at in the members: the value behind a string that
looks like the key, if there is one and it is the key of a member. -/
def sought : List JsonMember → Option (Option JsonValue)
  | [] => none
  | member :: members =>
      if looksLikeKey sqlKey member.key then some (some member.value)
      else if member.value.string?.any (looksLikeKey sqlKey) then some none
      else sought members

/-- The member that is found is the first one in either list. -/
theorem sought_append (members others : List JsonMember) :
    sought (members ++ others) = (sought members).or (sought others) := by
  induction members with
  | nil => rfl
  | cons member members ih =>
      rw [List.cons_append, sought, sought, ih]
      split
      · rfl
      · split <;> rfl

/-- What is read when the search ends there. -/
def readSought (sqlSize : Nat) (found : Option (Option JsonValue)) : Option (List UInt8) :=
  ((found.join).bind JsonValue.string?).bind (decodeWithin sqlSize)

/-- A member is read when it looks like the key, and passed over otherwise. -/
theorem readSql_member {sqlSize : Nat} (positive : 0 < sqlSize) (member : JsonMember) {stop : UInt8}
    (ends : stop = 44 ∨ stop = 125) (more : List UInt8) :
    readSql sqlSize (member.text ++ stop :: more) =
      if (sought [member]).isSome then readSought sqlSize (sought [member])
      else readSql sqlSize more := by
  have punctuation : isAlpha stop = false := by rcases ends with rfl | rfl <;> rfl
  have skipped : behind (keyText sqlKey) (stop :: more) = behind (keyText sqlKey) more := by
    apply @behind_skip 34 _ [stop]
    rcases ends with rfl | rfl <;> decide
  rw [readSql, behind_member sqlKey_letters sqlKey_ne_nil member punctuation, sought, sought]
  by_cases key : looksLikeKey sqlKey member.key = true
  · rw [if_pos key, if_pos key]
    exact readValue_behindKey positive member _
  · rw [if_neg key, if_neg key]
    by_cases value : member.value.string?.any (looksLikeKey sqlKey) = true
    · rw [if_pos value, if_pos value]
      exact readValue_behindValue sqlSize member.afterValue ends more
    · rw [if_neg value, if_neg value, skipped]
      rfl

/-- What is read from the members is what the search for the key ends at. -/
theorem readSql_members {sqlSize : Nat} (positive : 0 < sqlSize) (members : List JsonMember)
    {tail : List UInt8} (noQuote : 34 ∉ tail) :
    readSql sqlSize (membersText members ++ 125 :: tail) = readSought sqlSize (sought members) := by
  have nothing : ∀ text : List UInt8, 34 ∉ text → readSql sqlSize text = none := by
    intro text absent
    have skipped := @behind_skip 34 (sqlKey ++ [34]) text absent []
    rw [List.append_nil] at skipped
    rw [readSql, keyText, skipped]
    rfl
  induction members with
  | nil =>
      apply nothing
      rw [membersText, List.nil_append, List.mem_cons, not_or]
      exact ⟨by decide, noQuote⟩
  | cons member members ih =>
      have split := sought_append [member] members
      rw [List.singleton_append] at split
      have combined : readSought sqlSize (sought (member :: members)) =
          if (sought [member]).isSome then readSought sqlSize (sought [member])
          else readSought sqlSize (sought members) := by
        rw [split]
        cases sought [member] <;> rfl
      rw [combined]
      cases members with
      | nil =>
          rw [membersText, readSql_member positive member (.inr rfl), nothing tail noQuote]
          rfl
      | cons next members =>
          have text : membersText (member :: next :: members) ++ 125 :: tail =
              member.text ++ 44 :: (membersText (next :: members) ++ 125 :: tail) := by
            rw [membersText, List.append_assoc, List.cons_append]
            exact List.cons_ne_nil next members
          rw [text, readSql_member positive member (.inl rfl), ih]

/-- What `http_extract_sql` reads from an object. -/
theorem httpExtractSql_object {sqlSize : Nat} (positive : 0 < sqlSize) {body : CString}
    {object : JsonText} (isText : body.bytes = object.text) :
    (httpExtractSql body sqlSize).toOption =
      (readSought sqlSize (sought object.members)).map CString.ofBuffer := by
  have brace : (body.bytes.dropWhile isSpace).head? = some 123 := by
    rw [isText, JsonText.text, dropWhile_blanks]
    rfl
  have skipped : readSql sqlSize body.bytes =
      readSql sqlSize (membersText object.members ++ 125 :: object.after.1) := by
    have absent : 34 ∉ object.before.1 ++ [123] := by
      rw [List.mem_append, not_or]
      exact ⟨quote_not_mem_blanks _, by decide⟩
    rw [isText, JsonText.text, List.append_cons, readSql, keyText, behind_skip absent]
    rfl
  rw [httpExtractSql, if_pos brace]
  rw [← readSql_members positive object.members (quote_not_mem_blanks object.after), ← skipped,
    ← extractJsonSql_toOption]
  cases extractJsonSql body.bytes sqlSize <;> rfl

/-- An object with one member that is keyed `sql`; its value spells SQL text. -/
structure SqlObject where
  blanks : Blanks × Blanks
  before : List JsonMember
  sqlMember : JsonMember
  after : List JsonMember
  characters : JsonString
  sql : List UInt8
  keyed : spell sqlMember.key = sqlKey
  valued : sqlMember.value = .string characters
  spelled : decodeSql characters = some sql
  otherKeys : ∀ member ∈ before ++ after, spell member.key ≠ sqlKey

def SqlObject.toJsonText (object : SqlObject) : JsonText where
  before := object.blanks.1
  members := object.before ++ object.sqlMember :: object.after
  after := object.blanks.2

/-- `http_extract_sql` finds the text of the `sql` member. -/
def ExtractsMember (object : SqlObject) (body : CString) (sqlSize : Nat) : Prop :=
  (httpExtractSql body sqlSize).map CString.bytes = .ok object.sql

/-- A string of the member is spelled `sql`, or ends with an escaped quote and `sql`. -/
def Misleads (member : JsonMember) : Prop :=
  looksLikeKey sqlKey member.key = true ∨
    member.value.string?.any (looksLikeKey sqlKey) = true

/-- No member before the `sql` member misleads, or the first that does is misleading in its
key and has a value that spells the same SQL text. -/
def Found (object : SqlObject) : Prop :=
  (∀ member ∈ object.before, ¬ Misleads member) ∨
    ∃ clear member others characters, object.before = clear ++ member :: others ∧
      (∀ earlier ∈ clear, ¬ Misleads earlier) ∧ looksLikeKey sqlKey member.key = true ∧
        member.value = .string characters ∧ decodeSql characters = some object.sql

/-- Nothing is found when no member misleads. -/
theorem sought_eq_none_iff {members : List JsonMember} :
    sought members = none ↔ ∀ member ∈ members, ¬ Misleads member := by
  induction members with
  | nil => exact iff_of_true rfl nofun
  | cons member members ih =>
      rw [List.forall_mem_cons, ← ih, sought, Misleads]
      split
      · next key => exact iff_of_false nofun fun clear => clear.1 (.inl key)
      · next key =>
          split
          · next value => exact iff_of_false nofun fun clear => clear.1 (.inr value)
          · next value =>
              exact (and_iff_right (not_or.mpr ⟨key, value⟩)).symm

/-- A value is found behind the first member that misleads, if its key looks right. -/
theorem sought_eq_some_iff {members : List JsonMember} {value : JsonValue} :
    sought members = some (some value) ↔
      ∃ clear member others, members = clear ++ member :: others ∧
        (∀ earlier ∈ clear, ¬ Misleads earlier) ∧ looksLikeKey sqlKey member.key = true ∧
          member.value = value := by
  constructor
  · intro found
    induction members with
    | nil => cases found
    | cons member members ih =>
        rw [sought] at found
        split at found
        · next key =>
            obtain rfl := Option.some.inj (Option.some.inj found)
            exact ⟨[], member, members, rfl, nofun, key, rfl⟩
        · next key =>
            split at found
            · cases found
            · next noValue =>
                obtain ⟨clear, other, others, rfl, notEarlier, facts⟩ := ih found
                refine ⟨member :: clear, other, others, rfl, ?_, facts⟩
                exact List.forall_mem_cons.mpr ⟨not_or.mpr ⟨key, noValue⟩, notEarlier⟩
  · rintro ⟨clear, member, others, rfl, notEarlier, key, rfl⟩
    rw [sought_append, sought_eq_none_iff.mpr notEarlier, Option.none_or, sought, if_pos key]

theorem nul_not_mem_readSought {sqlSize : Nat} {found : Option (Option JsonValue)}
    {sql : List UInt8} (read : readSought sqlSize found = some sql) : 0 ∉ sql := by
  obtain ⟨characters, _, within⟩ := Option.bind_eq_some_iff.mp read
  exact nul_not_mem_decodeSql (Option.filter_eq_some_iff.mp within).1

/-- A result is known by its bytes. -/
theorem map_bytes_eq_ok_iff {result : Except (List UInt8) CString} {bytes : List UInt8} :
    result.map CString.bytes = .ok bytes ↔ result.toOption.map CString.bytes = some bytes := by
  cases result with
  | error message => exact iff_of_false nofun nofun
  | ok text => exact ⟨fun same => congrArg some (Except.ok.inj same),
      fun same => congrArg Except.ok (Option.some.inj same)⟩

/-- **The `sql` member is found.** From the text of a flat object, `http_extract_sql` takes
the text of the `sql` member if and only if no earlier string is taken for its key. -/
theorem extractsMember_iff (object : SqlObject) {body : CString} {sqlSize : Nat}
    (isText : body.bytes = object.toJsonText.text) (fits : object.sql.length < sqlSize) :
    ExtractsMember object body sqlSize ↔ Found object := by
  have extracted := httpExtractSql_object (Nat.zero_lt_of_lt fits) isText
  have within : ∀ characters, decodeWithin sqlSize characters = some object.sql ↔
      decodeSql characters = some object.sql := by
    intro characters
    rw [decodeWithin, Option.filter_eq_some_iff, decide_eq_true_eq]
    exact and_iff_left fits
  have property : ExtractsMember object body sqlSize ↔
      readSought sqlSize (sought object.toJsonText.members) = some object.sql := by
    rw [ExtractsMember, map_bytes_eq_ok_iff, extracted]
    rcases read : readSought sqlSize (sought object.toJsonText.members) with _ | sql
    · rfl
    · rw [Option.map_some, Option.map_some,
        CString.ofBuffer_bytes (nul_not_mem_readSought read)]
  have members : sought object.toJsonText.members =
      (sought object.before).or (some (some (.string object.characters))) := by
    have key : looksLikeKey sqlKey object.sqlMember.key = true := by
      rw [looksLikeKey, object.keyed, beq_self_eq_true, Bool.true_or]
    rw [SqlObject.toJsonText, sought_append, sought, if_pos key, object.valued]
  rw [property, members, Found, ← sought_eq_none_iff]
  rcases before : sought object.before with _ | found
  · refine iff_of_true ?_ (.inl rfl)
    exact (within object.characters).mpr object.spelled
  · rw [Option.some_or]
    constructor
    · intro read
      obtain ⟨characters, string, decoded⟩ := Option.bind_eq_some_iff.mp read
      obtain ⟨value, isValue, string⟩ := Option.bind_eq_some_iff.mp string
      obtain rfl : found = some value := isValue
      obtain ⟨clear, member, others, split, notEarlier, key, rfl⟩ := sought_eq_some_iff.mp before
      refine .inr ⟨clear, member, others, characters, split, notEarlier, key, ?_,
        (within characters).mp decoded⟩
      cases valued : member.value <;> rw [valued] at string <;> cases string
      rfl
    · rintro (absent | ⟨clear, member, others, characters, split, notEarlier, key, string, decoded⟩)
      · cases absent
      · have reached := sought_eq_some_iff.mpr
          ⟨clear, member, others, split, notEarlier, key, string⟩
        rw [before] at reached
        cases reached
        exact (within characters).mpr decoded

/-- A body with blanks, an escape and a member before the `sql` member. -/
theorem extractsMember_iff_blanks :
    let newline : Blanks := ⟨[lineFeed], by decide +kernel⟩
    let member := JsonMember.compact sqlCharacters
      (.string [.plain 97 (by decide), .escape 110 (by decide)])
    ExtractsMember {
      blanks := (newline, newline)
      before := [.compact [.plain 113 (by decide)] .null]
      sqlMember := { member with beforeColon := newline }
      after := []
      characters := [.plain 97 (by decide), .escape 110 (by decide)]
      sql := ascii "a\n"
      keyed := rfl
      valued := rfl
      spelled := rfl
      otherKeys := by decide }
      (CString.ofBuffer (ascii "\n\x7b\"q\":null,\"sql\"\n:\"a\\n\"\x7d\n")) 4096 := by
  intro newline member
  apply (@extractsMember_iff { .. } _ 4096 (by decide +kernel) (by decide)).mpr
  refine .inl ?_
  rw [← sought_eq_none_iff]
  decide

/-- A value `sql` before the member is taken for its key, and so is the end of a key with an
escaped quote. -/
theorem extractsMember_fails_earlier :
    let fails := fun body : String => ∃ object : SqlObject,
      object.toJsonText.text = ascii body ∧ object.sql = ascii "a" ∧
        ¬ ExtractsMember object (CString.ofBuffer (ascii body)) 4096
    fails "\x7b\"q\":\"sql\",\"sql\":\"a\"\x7d" ∧
      fails "\x7b\"q\\\"sql\":\"b\",\"sql\":\"a\"\x7d" := by
  constructor
  · refine ⟨{
      blanks := (noBlanks, noBlanks)
      before := [.compact [.plain 113 (by decide)] (.string sqlCharacters)]
      sqlMember := .compact sqlCharacters (.string [.plain 97 (by decide)])
      after := []
      characters := [.plain 97 (by decide)]
      sql := ascii "a"
      keyed := rfl
      valued := rfl
      spelled := rfl
      otherKeys := by decide }, by decide, rfl, ?_⟩
    rw [ExtractsMember]
    decide +kernel
  · refine ⟨{
      blanks := (noBlanks, noBlanks)
      before := [.compact (.plain 113 (by decide) :: .escape 34 (by decide) :: sqlCharacters)
        (.string [.plain 98 (by decide)])]
      sqlMember := .compact sqlCharacters (.string [.plain 97 (by decide)])
      after := []
      characters := [.plain 97 (by decide)]
      sql := ascii "a"
      keyed := rfl
      valued := rfl
      spelled := rfl
      otherKeys := by decide }, by decide, rfl, ?_⟩
    rw [ExtractsMember]
    decide +kernel

end MiniDbms.Http
