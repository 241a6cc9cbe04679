import MiniDbms.Foundation.CText

/-! # `http_extract_sql`

The SQL text of a request body: the value of the first `"sql"` if the body begins with a
brace, and otherwise the whole body without the white space around it. A pointer into
the body is what is left of it.
-/

namespace MiniDbms.Http

open Foundation

/-- `"`. -/
def doubleQuote : UInt8 := 34

/-- `\`. -/
def backslash : UInt8 := 92

/-- `copy_raw_sql`. -/
def copyRawSql (body : List UInt8) (sqlSize : Nat) : Except (List UInt8) (List UInt8) :=
  let sql := (body.dropWhile isSpace).rdropWhile isSpace
  if sql.length = 0 then .error (ascii "SQL body is empty")
  else if sqlSize < sql.length + 1 then .error (ascii "SQL body is too long")
  else .ok sql

/-- The `switch` of `extract_json_sql`: what an escaped byte stands for. -/
def jsonEscape (byte : UInt8) : Option UInt8 :=
  if byte = doubleQuote ∨ byte = backslash ∨ byte = 47 then some byte
  else if byte = 110 then some lineFeed
  else if byte = 114 then some carriageReturn
  else if byte = 116 then some 9
  else none

/-- The last loop of `extract_json_sql`, and what follows it; `sql` is what has been
stored. -/
def copyJsonString (sqlSize : Nat) (sql : List UInt8) :
    List UInt8 → Except (List UInt8) (List UInt8)
  | [] => .error (ascii "unterminated sql JSON string")
  | ch :: text =>
      if ch = doubleQuote then .ok sql
      else if ch = backslash then
        match text with
        | [] => .error (ascii "unterminated JSON escape")
        | escaped :: text =>
            match jsonEscape escaped with
            | none => .error (ascii "unsupported JSON escape in sql value")
            | some ch =>
                if sqlSize ≤ sql.length + 1 then .error (ascii "sql value is too long")
                else copyJsonString sqlSize (sql ++ [ch]) text
      else if sqlSize ≤ sql.length + 1 then .error (ascii "sql value is too long")
      else copyJsonString sqlSize (sql ++ [ch]) text

/-- `extract_json_sql`. -/
def extractJsonSql (body : List UInt8) (sqlSize : Nat) : Except (List UInt8) (List UInt8) :=
  match strstr (ascii "\"sql\"") body with
  | none => .error (ascii "JSON body must contain key \"sql\"")
  | some offset =>
      match (body.drop (offset + 5)).dropWhile isSpace with
      | 58 :: text =>
          match text.dropWhile isSpace with
          | 34 :: text => copyJsonString sqlSize [] text
          | _ => .error (ascii "sql value must be a JSON string")
      | _ => .error (ascii "expected ':' after sql key")

/-- `http_extract_sql`: the string in the buffer of `sqlSize` bytes, or the error text. -/
def httpExtractSql (body : CString) (sqlSize : Nat) : Except (List UInt8) CString :=
  let p := body.bytes.dropWhile isSpace
  (if p.head? = some 123 then extractJsonSql body.bytes sqlSize
    else copyRawSql body.bytes sqlSize).map CString.ofBuffer

example : (httpExtractSql (CString.ofBuffer (ascii " \x7b\"sql\" : \"a\\n\\\"b\", 1")) 8).toOption =
    some (CString.ofBuffer (ascii "a\n\"b")) := by
  decide +kernel

end MiniDbms.Http
