import MiniDbms.Foundation.Memory
import MiniDbms.Http.ExtractSql

/-! # `http_extract_sql` in memory

The function on the body and on `sql_out`, with every access checked. It does what the
function on texts does (`MiniDbms.Http.Memory.agrees_httpExtractSql`), so it reads nothing
behind the terminator of the body and writes nothing outside of `sql_out`.
-/

namespace MiniDbms.Http.Memory

open Foundation

/-- The loop of `copy_raw_sql` that moves `end` back. -/
def trimEnd (body : Block UInt8) (start : Nat) : Nat → Option Nat
  | 0 => some 0
  | last + 1 =>
      if start < last + 1 then do
        let byte ← body.read last
        if isSpace byte then trimEnd body start last else return last + 1
      else some (last + 1)

/-- `copy_raw_sql`. -/
def copyRawSql (body sqlOut : Block UInt8) (sqlSize : Nat) :
    Checked (List UInt8) (Block UInt8) := do
  let start ← body.skipSpace 0
  let text ← body.string start
  let last ← trimEnd body start (start + text.length)
  let len ← sizeSub last start
  if len = 0 then throw (ascii "SQL body is empty")
  else if sqlSize < len + 1 then throw (ascii "SQL body is too long")
  else do
    let bytes ← body.readAll start len
    let sqlOut ← sqlOut.writeAll 0 bytes
    let sqlOut ← sqlOut.write len 0
    return sqlOut

/-- The last loop of `extract_json_sql`, and what follows it. -/
def copyJsonString (sqlSize : Nat) (body : Block UInt8) (p : Nat) (sqlOut : Block UInt8)
    (len : Nat) : Checked (List UInt8) (Block UInt8) :=
  if p < body.size then do
    let ch ← body.read p
    if ch = 0 then throw (ascii "unterminated sql JSON string")
    else if ch = doubleQuote then do
      let sqlOut ← sqlOut.write len 0
      return sqlOut
    else if ch = backslash then do
      let escaped ← body.read (p + 1)
      if escaped = 0 then throw (ascii "unterminated JSON escape")
      else
        match jsonEscape escaped with
        | none => throw (ascii "unsupported JSON escape in sql value")
        | some ch =>
            if sqlSize ≤ len + 1 then throw (ascii "sql value is too long")
            else do
              let sqlOut ← sqlOut.write len ch
              copyJsonString sqlSize body (p + 2) sqlOut (len + 1)
    else if sqlSize ≤ len + 1 then throw (ascii "sql value is too long")
    else do
      let sqlOut ← sqlOut.write len ch
      copyJsonString sqlSize body (p + 1) sqlOut (len + 1)
  else liftM (none : Option (Block UInt8))
termination_by body.size - p

/-- `extract_json_sql`. -/
def extractJsonSql (body sqlOut : Block UInt8) (sqlSize : Nat) :
    Checked (List UInt8) (Block UInt8) := do
  let text ← body.string 0
  match strstr (ascii "\"sql\"") text with
  | none => throw (ascii "JSON body must contain key \"sql\"")
  | some key => do
      let p ← body.skipSpace (key + 5)
      let byte ← body.read p
      if byte ≠ 58 then throw (ascii "expected ':' after sql key")
      else do
        let p ← body.skipSpace (p + 1)
        let byte ← body.read p
        if byte ≠ 34 then throw (ascii "sql value must be a JSON string")
        else copyJsonString sqlSize body (p + 1) sqlOut 0

/-- `http_extract_sql`. -/
def httpExtractSql (body sqlOut : Block UInt8) (sqlSize : Nat) :
    Checked (List UInt8) (Block UInt8) := do
  let p ← body.skipSpace 0
  let byte ← body.read p
  if byte = 123 then extractJsonSql body sqlOut sqlSize else copyRawSql body sqlOut sqlSize

section Agreement

variable {body sqlOut : Block UInt8} {text : List UInt8} {sqlSize : Nat}

/-- The string in the buffer. -/
def IsSql (sqlSize : Nat) (sqlOut : Block UInt8) (sql : List UInt8) : Prop :=
  sqlOut.Points 0 sql ∧ sqlOut.size = sqlSize

/-- The loop finds the end of the text without the white space there. -/
theorem trimEnd_eq {start : Nat} (points : body.Points start text) {count : Nat}
    (inside : count ≤ text.length) :
    trimEnd body start (start + count) =
      some (start + ((text.take count).rdropWhile isSpace).length) := by
  induction count with
  | zero =>
      rw [Nat.add_zero, List.take_zero, List.rdropWhile_nil, List.length_nil, Nat.add_zero]
      cases start with
      | zero => rfl
      | succ start => exact if_neg (Nat.lt_irrefl _)
  | succ count ih =>
      have here : count < text.length := inside
      have byte : body.read (start + count) = some text[count] := by
        rw [(points.drop here.le).read, List.drop_eq_getElem_cons here, List.headD_cons]
      rw [← Nat.add_assoc, trimEnd, if_pos (by omega), byte, List.take_succ_eq_append_getElem here]
      change (if isSpace text[count] = true then _ else _) = _
      by_cases space : isSpace text[count] = true
      · rw [if_pos space, List.rdropWhile_concat_pos _ _ _ space]
        exact ih here.le
      · rw [if_neg space, List.rdropWhile_concat_neg _ _ _ space, List.length_append,
          List.length_take, Nat.min_eq_left here.le]
        rfl

/-- The raw copy in memory agrees with the one on lists. -/
theorem agrees_copyRawSql (points : body.Points 0 text) (size : sqlOut.size = sqlSize) :
    Agrees (IsSql sqlSize) (copyRawSql body sqlOut sqlSize) (Http.copyRawSql text sqlSize) := by
  obtain ⟨start, skipped, there⟩ := points.skipSpace
  have whole := trimEnd_eq there (Nat.le_refl _)
  rw [List.take_length] at whole
  rw [Http.copyRawSql]
  have initial := List.rdropWhile_prefix isSpace (text.dropWhile isSpace)
  have noNul : 0 ∉ (text.dropWhile isSpace).rdropWhile isSpace :=
    fun member => there.1 (initial.subset member)
  generalize (text.dropWhile isSpace).rdropWhile isSpace = sql at whole initial noNul ⊢
  apply Agrees.lift skipped
  apply Agrees.lift there.string
  apply Agrees.lift whole
  have len : sizeSub (start + sql.length) start = some sql.length := by
    rw [sizeSub, if_pos (Nat.le_add_right _ _), Nat.add_sub_cancel_left]
  apply Agrees.lift len
  split
  · exact rfl
  · split
    · exact rfl
    · next fits =>
        have bytes := there.readAll initial.length_le
        rw [← List.prefix_iff_eq_take.mp initial] at bytes
        have room : sql.length < sqlOut.size := by omega
        obtain ⟨middle, written, holds, same⟩ := Block.writeAll_start room.le
        obtain ⟨last, ended, held⟩ := holds.terminate noNul (same.trans size) (size ▸ room)
        apply Agrees.lift bytes
        apply Agrees.lift written
        exact Agrees.done ended held

theorem jsonEscape_ne_nul {escaped ch : UInt8} (found : jsonEscape escaped = some ch) :
    ch ≠ 0 := by
  grind [jsonEscape, doubleQuote, backslash, lineFeed, carriageReturn]

/-- One byte more, and what follows it. -/
theorem agrees_store {sql : List UInt8} {ch : UInt8} (holds : sqlOut.Holds sql)
    (size : sqlOut.size = sqlSize) {next : Block UInt8 → Checked (List UInt8) (Block UInt8)}
    {specNext : Except (List UInt8) (List UInt8)}
    (rest : ∀ more, more.Holds (sql ++ [ch]) → more.size = sqlSize →
      sql.length + 1 < sqlSize → Agrees (IsSql sqlSize) (next more) specNext) :
    Agrees (IsSql sqlSize)
      (if sqlSize ≤ sql.length + 1 then throw (ascii "sql value is too long")
        else do
          let more ← sqlOut.write sql.length ch
          next more)
      (if sqlSize ≤ sql.length + 1 then .error (ascii "sql value is too long") else specNext) := by
  split
  · exact rfl
  · next fits =>
      obtain ⟨more, written, held, same⟩ := holds.write (by omega) ch
      apply Agrees.lift written
      exact rest more held (same.trans size) (by omega)

theorem agrees_copyJsonString {p : Nat} (points : body.Points p text) {sql : List UInt8}
    (holds : sqlOut.Holds sql) (noNul : 0 ∉ sql) (size : sqlOut.size = sqlSize)
    (room : sql.length < sqlSize) :
    Agrees (IsSql sqlSize) (copyJsonString sqlSize body p sqlOut sql.length)
      (Http.copyJsonString sqlSize sql text) := by
  induction length : text.length using Nat.strongRecOn generalizing p text sqlOut sql with
  | ind count ih =>
      -- What the loop does after it stored a byte.
      have goesOn : ∀ {q : Nat} {rest : List UInt8} {ch : UInt8} {more : Block UInt8},
          body.Points q rest → rest.length < count → ch ≠ 0 → more.Holds (sql ++ [ch]) →
            more.size = sqlSize → sql.length + 1 < sqlSize →
              Agrees (IsSql sqlSize) (copyJsonString sqlSize body q more (sql.length + 1))
                (Http.copyJsonString sqlSize (sql ++ [ch]) rest) := by
        intro q rest ch more points shorter notNul held size room
        have grown : (sql ++ [ch]).length = sql.length + 1 := by
          rw [List.length_append, List.length_singleton]
        rw [← grown]
        refine ih _ shorter points held ?_ size (grown ▸ room) rfl
        rw [List.mem_append, List.mem_singleton, not_or]
        exact ⟨noNul, Ne.symm notNul⟩
      rw [copyJsonString,
        if_pos points.inside]
      apply Agrees.lift points.read
      cases text with
      | nil => exact rfl
      | cons ch rest =>
          rw [List.length_cons] at length
          rw [List.headD_cons, if_neg points.notNul, Http.copyJsonString.eq_def]
          dsimp only
          by_cases closed : ch = doubleQuote
          · rw [if_pos closed, if_pos closed]
            obtain ⟨last, ended, held⟩ := holds.terminate noNul size room
            exact Agrees.done ended held
          · rw [if_neg closed, if_neg closed]
            by_cases escape : ch = backslash
            · rw [if_pos escape, if_pos escape]
              apply Agrees.lift points.next.read
              cases rest with
              | nil => exact rfl
              | cons escaped rest =>
                  rw [List.length_cons] at length
                  rw [List.headD_cons, if_neg points.next.notNul]
                  dsimp only
                  cases found : jsonEscape escaped with
                  | none => exact rfl
                  | some meant =>
                      apply agrees_store holds size
                      intro more held size room
                      exact goesOn points.next.next (by omega) (jsonEscape_ne_nul found) held size
                        room
            · rw [if_neg escape, if_neg escape]
              apply agrees_store holds size
              intro more held size room
              exact goesOn points.next (by omega) points.notNul held size room

/-- A byte that must come next. -/
theorem agrees_expect {p : Nat} (points : body.Points p text) {symbol : UInt8} (notNul : symbol ≠ 0)
    {message : List UInt8} {next : Checked (List UInt8) (Block UInt8)}
    {spec : Except (List UInt8) (List UInt8)}
    (absent : text.head? ≠ some symbol → spec = .error message)
    (present : ∀ rest, text = symbol :: rest → body.Points (p + 1) rest →
      Agrees (IsSql sqlSize) next spec) :
    Agrees (IsSql sqlSize)
      (do
        let byte ← body.read p
        if byte ≠ symbol then throw message else next) spec := by
  apply Agrees.lift points.read
  by_cases first : text.head? = some symbol
  · obtain ⟨rest, rfl⟩ := List.head?_eq_some_iff.mp first
    rw [List.headD_cons, if_neg (not_not.mpr rfl)]
    exact present rest rfl points.next
  · rw [if_pos, absent first]
    · exact rfl
    · cases text with
      | nil => exact Ne.symm notNul
      | cons byte rest => exact fun same => first (congrArg some same)

theorem agrees_extractJsonSql (points : body.Points 0 text) (size : sqlOut.size = sqlSize)
    (room : 0 < sqlSize) :
    Agrees (IsSql sqlSize) (extractJsonSql body sqlOut sqlSize)
      (Http.extractJsonSql text sqlSize) := by
  apply Agrees.lift points.string
  rw [Http.extractJsonSql]
  cases found : strstr (ascii "\"sql\"") text with
  | none => exact rfl
  | some key =>
      have inside : key + 5 ≤ text.length := strstr_le (List.cons_ne_nil _ _) found
      have there := points.drop inside
      rw [Nat.zero_add] at there
      obtain ⟨colon, skipped, points⟩ := there.skipSpace
      apply Agrees.lift skipped
      dsimp only
      apply agrees_expect points (by decide)
      · intro other
        split
        · next same => exact absurd (congrArg List.head? same) other
        · rfl
      · intro rest same points
        split
        · next again =>
            obtain rfl := (List.cons.inj (same.symm.trans again)).2
            obtain ⟨place, skipped, points⟩ := points.skipSpace
            apply Agrees.lift skipped
            apply agrees_expect points (by decide)
            · intro other
              split
              · next same => exact absurd (congrArg List.head? same) other
              · rfl
            · intro string same points
              rw [same]
              exact agrees_copyJsonString points (Block.holds_nil _) List.not_mem_nil size room
        · next other => exact absurd same (other rest)

/-- The string that the text of the body has. -/
theorem agrees_httpExtractSql {text : CString} (points : body.Points 0 text.bytes)
    (size : sqlOut.size = sqlSize) (room : 0 < sqlSize) :
    Agrees (fun out sql => IsSql sqlSize out sql.bytes) (httpExtractSql body sqlOut sqlSize)
      (Http.httpExtractSql text sqlSize) := by
  have asString : ∀ {run : Checked (List UInt8) (Block UInt8)}
      {spec : Except (List UInt8) (List UInt8)}, Agrees (IsSql sqlSize) run spec →
        Agrees (fun out sql => IsSql sqlSize out sql.bytes) run (spec.map CString.ofBuffer) := by
    intro run spec agrees
    cases spec with
    | error message => exact agrees
    | ok sql =>
        obtain ⟨out, ran, held, size⟩ := agrees
        refine ⟨out, ran, ?_, size⟩
        rwa [CString.ofBuffer_bytes held.1]
  obtain ⟨first, skipped, there⟩ := points.skipSpace
  rw [Http.httpExtractSql]
  apply Agrees.lift skipped
  apply Agrees.lift there.read
  generalize text.bytes.dropWhile isSpace = begun at there ⊢
  by_cases brace : begun.head? = some 123
  · obtain ⟨rest, rfl⟩ := List.head?_eq_some_iff.mp brace
    exact asString (agrees_extractJsonSql points size room)
  · have other : begun.headD 0 ≠ 123 := by
      cases begun with
      | nil => decide
      | cons byte rest => exact fun same => brace (congrArg some same)
    rw [if_neg other, if_neg brace]
    exact asString (agrees_copyRawSql points size)

end Agreement

end MiniDbms.Http.Memory
