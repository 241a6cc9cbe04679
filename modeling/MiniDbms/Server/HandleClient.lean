import MiniDbms.Http.ExtractSql
import MiniDbms.Http.ReadRequest
import MiniDbms.Server.ExecuteStatement

/-! # `handle_client`

What a worker does with a connection, as far as it can be seen from outside: it reads the
request, executes a statement if the request is a query that can be parsed, makes one
response and closes the connection.
-/

namespace MiniDbms.Server

open Foundation Util Db Sql Http

/-- A call of `send_json_response`. -/
structure HttpResponse where
  statusCode : Nat
  body : List UInt8

/-- `make_error_body`. -/
def makeErrorBody (message : List UInt8) : Alloc (List UInt8) := do
  let builder ← jsonBuilderInit
  let builder ← jsonBuilderAppend builder (ascii "\x7b\"error\":")
  let builder ← jsonBuilderAppendString builder message
  let builder ← jsonBuilderAppend builder (ascii "\x7d")
  return builder.data

/-- The call of `send_json_response` that `send_error_response` makes. -/
def sendErrorResponse (statusCode : Nat) (message : List UInt8) (heap : Heap) : HttpResponse :=
  match (makeErrorBody message heap).1 with
  | .ok body => { statusCode := statusCode, body := body }
  | .error _ => { statusCode := 500, body := ascii "\x7b\"error\":\"out of memory\"\x7d" }

/-- Where a worker is in `handle_client`. -/
inductive ClientStage where
  /-- In `http_read_request`. -/
  | reading (reading : Reading)
  /-- In `execute_statement`. -/
  | executing (stmt : SqlStatement)
  /-- About to call `send_json_response`. -/
  | responding (response : HttpResponse)
  /-- In `http_send_json_with_thread`. -/
  | sending
  /-- About to call `close`. -/
  | closing
  | closed

/-- `SQL_MAX_LEN`. -/
def sqlMaxLen : Nat := 4096

/-- `handle_query` up to `execute_statement`. -/
def handleQuery (request : HttpRequest) (heap : Heap) : ClientStage :=
  match httpExtractSql (CString.ofBuffer request.body) sqlMaxLen with
  | .error err => .responding (sendErrorResponse 400 err heap)
  | .ok sql =>
      match sqlParse sql with
      | .error err => .responding (sendErrorResponse 400 err heap)
      | .ok stmt => .executing stmt

/-- `handle_query` from the result of `execute_statement` on. -/
def answerQuery (result : DbResult) (heap : Heap) : HttpResponse :=
  if result.ok then { statusCode := 200, body := result.rowsJson.getD (ascii "[]") }
  else sendErrorResponse 500 result.message heap

/-- `handle_client` when `http_read_request` has returned. -/
def handleRequest (result : Except (List UInt8) HttpRequest) (heap : Heap) : ClientStage :=
  match result with
  | .error err => .responding (sendErrorResponse 400 err heap)
  | .ok request =>
      let path := request.path.bytes
      if strcasecmpEq request.method.bytes (ascii "GET") && path == ascii "/health" then
        .responding { statusCode := 200, body := ascii "\x7b\"status\":\"ok\"\x7d" }
      else if strcasecmpEq request.method.bytes (ascii "POST") && path == ascii "/query" then
        handleQuery request heap
      else if path == ascii "/query" || path == ascii "/health" then
        .responding (sendErrorResponse 405 (ascii "method not allowed") heap)
      else .responding (sendErrorResponse 404 (ascii "route not found") heap)

/-- The call of `send_json_response` has been made. -/
def ClientStage.answered : ClientStage → Bool
  | .reading _ => false
  | .executing _ => false
  | .responding _ => false
  | .sending => true
  | .closing => true
  | .closed => true

/-- The connection is still open. -/
def ClientStage.isOpen : ClientStage → Bool
  | .closed => false
  | _ => true

/-- Reading a request leads to a response, at once or through a statement. -/
theorem handleRequest_stage (result : Except (List UInt8) HttpRequest) (heap : Heap) :
    (∃ response, handleRequest result heap = .responding response) ∨
      ∃ stmt, handleRequest result heap = .executing stmt := by
  have query : ∀ request, (∃ response, handleQuery request heap = .responding response) ∨
      ∃ stmt, handleQuery request heap = .executing stmt := by
    intro request
    simp only [handleQuery]
    split
    · exact .inl ⟨_, rfl⟩
    · split
      · exact .inl ⟨_, rfl⟩
      · exact .inr ⟨_, rfl⟩
  simp only [handleRequest]
  split
  · exact .inl ⟨_, rfl⟩
  · split
    · exact .inl ⟨_, rfl⟩
    · split
      · exact query _
      · split <;> exact .inl ⟨_, rfl⟩

end MiniDbms.Server
