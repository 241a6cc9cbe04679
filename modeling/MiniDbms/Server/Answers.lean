import MiniDbms.Server.Linearizable
import MiniDbms.Util.BuilderMemory

/-! # What the responses say

Whatever the clients send and whatever fails, every response of the server has a status that goes
with its body, and its body can be read: the health text, an object with an error, or an array of
what the statement that was read asks for, when it is put to the table that its call and the calls
before it lead to (`MiniDbms.Server.responses_readable`).
-/

namespace MiniDbms.Server

open Foundation Util Db Sql Http

/-- The object that is the whole text. -/
def decodeObject (text : List UInt8) : Option JsonObject := do
  let (object, text) ← readObject text.length text
  if skipBlanks text = [] then some object else none

/-- The text of an object with one member. -/
def textObject (key text : List UInt8) : List UInt8 :=
  123 :: 34 :: (key ++ 34 :: 58 :: 34 :: (escape text ++ [34, 125]))

/-- A key of the source and its text. -/
theorem readMember_text {fuel : Nat} {key text : List UInt8} (plain : key.all isPlain = true)
    (keyFits : key.length < fuel) (enough : text.length < fuel) (rest : List UInt8) :
    readMember fuel (34 :: (key ++ 34 :: 58 :: 34 :: (escape text ++ 34 :: rest))) =
      some ((key, .text text), rest) := by
  refine readMember_parts (readString_plain plain keyFits _) ?_ ?_
  · exact skipBlanks_cons (by decide) _
  · rw [readScalar, List.head?_cons, if_pos rfl, List.tail_cons, readString_escape enough]
    rfl

/-- The object is read back, whatever bytes the text is made of. -/
theorem decodeObject_textObject {key : List UInt8} (plain : key.all isPlain = true)
    (text : List UInt8) : decodeObject (textObject key text) = some [(key, .text text)] := by
  have least := length_le_escape text
  have size : (textObject key text).length = key.length + (escape text).length + 7 := by
    simp only [textObject, List.length_cons, List.length_append, List.length_nil]
    omega
  let written : Unit → List UInt8 := fun _ =>
    34 :: (key ++ 34 :: 58 :: 34 :: (escape text ++ [34]))
  have spelled : textObject key text = 123 :: (joined written [()] ++ 125 :: []) := by
    simp only [textObject, written, joined, List.flatMap_nil, List.append_nil, List.cons_append,
      List.append_assoc, List.nil_append]
  have reads : ItemReads (readMember (textObject key text).length) 125 written
      (fun _ => (key, .text text)) () := by
    refine ⟨⟨34, _, rfl, by decide, by decide⟩, fun rest _ => ?_⟩
    simp only [written, List.cons_append, List.append_assoc, List.nil_append]
    exact readMember_text plain (by omega) (by omega) rest
  have read := @readSequence_joined _ _ (readMember (textObject key text).length) 125 written
    (fun _ => (key, .text text)) ⟨by decide, by decide⟩ [()] (fun _ _ => reads)
    (textObject key text).length (by rw [size, List.length_singleton]; omega) []
  have opening : readByte 123 (textObject key text) = some (joined written [()] ++ 125 :: []) := by
    rw [spelled]
    exact readByte_cons 123 _
  simp only [decodeObject, readObject, opening, Option.bind_eq_bind, Option.bind_some, read]
  rfl

/-- `make_error_body` makes an object with the message, when it makes one. -/
theorem makeErrorBody_data {message body : List UInt8} {heap : Heap}
    (made : (makeErrorBody message heap).1 = .ok body) :
    body = textObject (ascii "error") message := by
  obtain ⟨empty, first, began, made⟩ := Attempt.ok_of_bind made
  obtain ⟨opened, second, opens, made⟩ := Attempt.ok_of_bind made
  obtain ⟨filled, third, fills, made⟩ := Attempt.ok_of_bind made
  obtain ⟨closed, fourth, closes, ended⟩ := Attempt.ok_of_bind made
  obtain ⟨_, _, _, starts⟩ := Attempt.ok_of_bind (congrArg Prod.fst began)
  cases ended
  cases starts
  rw [Memory.data_append (congrArg Prod.fst closes),
    Memory.data_appendString (congrArg Prod.fst fills),
    Memory.data_append (congrArg Prod.fst opens)]
  simp only [textObject, List.nil_append, List.append_assoc]
  rfl

/-- The statuses of the responses that carry an error. -/
def errorStatuses : List Nat := [400, 404, 405, 500]

/-- What is told of a request when the table is the ledger: the row that was inserted last, or the
selected columns of the rows that are selected. -/
inductive Tells (ledger : Ledger) : Request → List JsonObject → Prop where
  | inserted {id : Option Int} {name : List UInt8} {age : Int} {record : Record}
      (last : ledger.rows.getLast? = some record) (given : ∀ value ∈ id, (row record).id = value)
      (named : (row record).name = name) (aged : (row record).age = age) :
      Tells ledger (.insert id name age) [(row record).project everyColumn]
  | selected (selection : Selection) (columns : List SqlColumn) :
      Tells ledger (.select selection columns)
        ((selection.of (ledger.rows.map row)).map (Row.project columns))
  /-- No row is found by its id. -/
  | missed (id : Int) (columns : List SqlColumn) (damaged : ¬ledger.intact) :
      Tells ledger (.select (.keyed id) columns) []

/-- What a response says, as far as a client can read it. A response with rows is for a statement
that was executed; it tells what there is to tell after its call. -/
inductive Readable (start : Store) (opened last : Ledger) (log : CallLog threadCount)
    (visit : Visit) : HttpResponse → Prop where
  | health {body : List UInt8}
      (decodes : decodeObject body = some [(ascii "status", .text (ascii "ok"))]) :
      Readable start opened last log visit { statusCode := 200, body := body }
  | rows {body : List UInt8} {stmt : SqlStatement} {position : Nat} {heap : Heap}
      {ledger : Ledger} {objects : List JsonObject} (leads : visit.Leads (.executing stmt))
      (call : visit.call = some (position, heap))
      (reached : PermittedRun start opened (log.take (position + 1)) ledger)
      (grows : ledger.rows <+: last.rows) (tells : Tells ledger stmt.request objects)
      (decodes : decodeRows body = some objects) :
      Readable start opened last log visit { statusCode := 200, body := body }
  | error {statusCode : Nat} {body : List UInt8} (message : List UInt8)
      (status : statusCode ∈ errorStatuses)
      (decodes : decodeObject body = some [(ascii "error", .text message)]) :
      Readable start opened last log visit { statusCode := statusCode, body := body }

section Readable

variable {start : Store} {opened last : Ledger} {log : CallLog threadCount} {visit : Visit}

/-- An error is reported as it is, or the memory for its body was refused. -/
theorem readable_sendErrorResponse {statusCode : Nat} (status : statusCode ∈ errorStatuses)
    (message : List UInt8) (heap : Heap) :
    Readable start opened last log visit (sendErrorResponse statusCode message heap) := by
  unfold sendErrorResponse
  cases made : (makeErrorBody message heap).1 with
  | ok body =>
      refine .error message status ?_
      rw [makeErrorBody_data made]
      exact decodeObject_textObject (by decide) message
  | error refused =>
      refine .error (ascii "out of memory") (by decide) ?_
      have spelled : ascii "\x7b\"error\":\"out of memory\"\x7d" =
          textObject (ascii "error") (ascii "out of memory") := by decide
      rw [spelled]
      exact decodeObject_textObject (by decide) _

/-- What `handle_query` answers without the engine can be read. -/
theorem readable_handleQuery {request : HttpRequest} {heap : Heap} {response : HttpResponse}
    (leads : handleQuery request heap = .responding response) :
    Readable start opened last log visit response := by
  simp only [handleQuery] at leads
  split at leads
  · cases leads
    exact readable_sendErrorResponse (by decide) _ heap
  · split at leads
    · cases leads
      exact readable_sendErrorResponse (by decide) _ heap
    · cases leads

/-- What is answered without the engine can be read. -/
theorem readable_handleRequest {result : Except (List UInt8) HttpRequest} {heap : Heap}
    {response : HttpResponse} (leads : handleRequest result heap = .responding response) :
    Readable start opened last log visit response := by
  simp only [handleRequest] at leads
  split at leads
  · cases leads
    exact readable_sendErrorResponse (by decide) _ heap
  · split at leads
    · cases leads
      refine .health ?_
      have spelled : ascii "\x7b\"status\":\"ok\"\x7d" =
          textObject (ascii "status") (ascii "ok") := by decide
      rw [spelled]
      exact decodeObject_textObject (by decide) _
    · split at leads
      · exact readable_handleQuery leads
      · split at leads <;> cases leads
        · exact readable_sendErrorResponse (by decide) _ heap
        · exact readable_sendErrorResponse (by decide) _ heap

end Readable

/-- A result that is ok can be read, and tells what the ledger behind the call says. -/
theorem tells_of_permitted {quiet indexed : Prop} {ledger next : Ledger} {stmt : SqlStatement}
    {result : DbResult} (wellFormed : stmt.WellFormed)
    (permitted : Permitted quiet indexed ledger (statementCall stmt) result next)
    (ok : result.ok = true) :
    ∃ json objects, result.rowsJson = some json ∧ decodeRows json = some objects ∧
      Tells next stmt.request objects := by
  have inserted : ∀ {hasId : Bool} {id : Int32},
      Tells (ledger.add (ledger.record hasId id stmt.insertName.toCString stmt.insertAge) indexed)
        (.insert (if hasId then some id.toInt else none) stmt.insertName.bytes
          stmt.insertAge.toInt)
        [(row (ledger.record hasId id stmt.insertName.toCString stmt.insertAge)).project
          everyColumn] := by
    intro hasId id
    refine .inserted List.getLast?_concat ?_ ?_ rfl
    · intro value member
      cases hasId with
      | true =>
          cases member
          rfl
      | false => cases member
    · rw [Ledger.record, BoundedString.truncate_toCString]
      rfl
  cases kind : stmt.type with
  | insert =>
      cases given : stmt.insertHasId with
      | true =>
          simp only [statementCall, SqlStatement.request, kind, given, ↓reduceIte] at permitted ⊢
          cases permitted with
          | inserted asks admissible fresh =>
              cases asks
              exact ⟨_, _, rfl, decodeRows_shown everyColumn [_], inserted⟩
          | invalid | duplicate | stopped | torn | stored => cases ok
      | false =>
          simp only [statementCall, SqlStatement.request, kind, given, Bool.false_eq_true,
            ↓reduceIte] at permitted ⊢
          cases permitted with
          | inserted asks admissible fresh =>
              cases asks
              exact ⟨_, _, rfl, decodeRows_shown everyColumn [_], inserted⟩
          | invalid | stopped | torn | stored => cases ok
  | select =>
      have shown := shown_statementProjection (wellFormed.columns kind)
      simp only [statementCall, SqlStatement.request, kind, reduceCtorEq, ↓reduceIte]
        at permitted ⊢
      cases permitted with
      | selected =>
          refine ⟨_, _, rfl, ?_, .selected _ _⟩
          rw [shown, decodeRows_shown, matching_statementFilter]
      | missed _ byId damaged =>
          have keyed : stmt.selection = .keyed stmt.whereId.toInt := by
            unfold statementFilter at byId
            unfold SqlStatement.selection
            cases kind : stmt.whereType with
            | id => rfl
            | none | name => simp only [kind, reduceCtorEq] at byId
          have nothing : (statementFilter stmt).matching [] = [] := by
            rw [DbFilter.matching, byId]
            rfl
          refine ⟨_, [], rfl, ?_, keyed ▸ .missed _ _ damaged⟩
          rw [shown, nothing, decodeRows_shown]
          rfl
      | inserted asks | invalid asks | stopped asks | torn asks | stored asks => cases asks
      | unread => cases ok

/-- **Every response can be read.** In every run on a file that could be loaded, with any number
of workers, whatever the clients send and whatever is refused: a response has one of five statuses
and a body in JSON that goes with it, and what it shows is what the statement asks for, in the
table that its call and the calls before it lead to. -/
theorem responses_readable {dataPath : CString} {file : List UInt8} {env : Environment}
    {db : DbEngine} (loaded : (dbInit dataPath file env).1 = .ok db) {fds : Nat → Socket}
    {listenFd : Int32} {opened : Int32 → Bool} {initial : ServerState threadCount}
    (started : serverInit threadCount fds listenFd opened { db := db, file := file } =
      some initial)
    {transcript : Transcript threadCount}
    (reached : Reaches Transcript.perform (.initial initial) transcript) :
    ∃ records last, readFile file = .ok records ∧
      let start : Store := { db := db, file := file }
      let before := openedLedger records file ((dbInit dataPath file env.fresh).2.refused = false)
      let log := transcript.state.database.log
      PermittedRun start before log last ∧
        ∀ exchange ∈ transcript.exchanges,
          Readable start before last log exchange.visit exchange.response := by
  obtain ⟨kept, _⟩ := Transcript.kept_of_reaches started reached
  obtain ⟨base, serialized⟩ := kept.serialized
  obtain ⟨records, read, follows⟩ := follows_opened loaded
  obtain ⟨last, run, _⟩ := follows.replays serialized.replayed
  refine ⟨records, last, read, run, fun exchange member => ?_⟩
  cases kept.exchanged.justified exchange member with
  | direct leads noCall =>
      obtain ⟨result, heap, _, _, leads⟩ := leads
      exact readable_handleRequest leads
  | @query stmt position heap entry leads call statement completed own answer =>
      rw [answer]
      unfold answerQuery
      by_cases ok : entry.result.1.ok = true
      · obtain ⟨store, ledger, next, permitted, reached, grows⟩ := run.entry completed
        have asked : entry.op.1 = statementCall stmt := by
          have same := congrArg (·[position]?) kept.calls
          simp only [List.getElem?_map, completed, statement, Option.map_some] at same
          exact Option.some.inj same
        obtain ⟨sql, parsed⟩ := leads.parsed
        rw [asked] at permitted
        obtain ⟨json, objects, answered, decodes, tells⟩ :=
          tells_of_permitted (sqlParse_wellFormed parsed) permitted ok
        rw [if_pos ok, answered, Option.getD_some]
        exact .rows leads call reached grows tells decodes
      · rw [if_neg ok]
        exact readable_sendErrorResponse (by decide) _ heap

/-- One connection sends nothing that is a request, the next one asks for the name of a row. -/
theorem responses_readable_two :
    let path := CString.ofBuffer (ascii "users.db")
    let file := ascii "7,ann,30\n"
    let start : Store := { db := openedEngine path file .calm, file := file }
    ∃ transcript : Transcript 1,
      transcript.exchanges.map (·.response.statusCode) = [400, 200] ∧
      ∃ records last, readFile file = .ok records ∧
        let before := openedLedger records file
          ((dbInit path file Environment.calm.fresh).2.refused = false)
        let log := transcript.state.database.log
        PermittedRun start before log last ∧
          ∀ exchange ∈ transcript.exchanges,
            Readable start before last log exchange.visit exchange.response := by
  intro path file start
  let request := ascii "POST /query HTTP/1.1\r\nContent-Length: 35\r\n\r\n" ++
    ascii "SELECT name FROM users WHERE id = 7"
  let finish : List (ServerMove 1) :=
    [.client 0 .respond, .client 0 .send, .client 0 .sent, .client 0 .close, .client 0 .returns]
  let moves : List (ServerMove 1) :=
    ServerMove.submission 5 ++ ServerMove.submission 6 ++ ServerMove.pickup 0 ++
      [.client 0 (.recv .failed), .client 0 (.route .generous)] ++ finish ++
      ServerMove.pickup 0 ++
      [.client 0 (.recv (.data request)), .client 0 (.route .generous),
        .client 0 (.engine (.request .calm)), .client 0 (.engine .acquire),
        .client 0 (.engine .work), .client 0 (.engine .work), .client 0 (.engine .work),
        .client 0 (.engine .work), .client 0 (.engine (.release .generous))] ++ finish
  let run : Option (Transcript 1) :=
    (serverInit 1 (fun _ => ⟨0, 0⟩) 3 (fun number => number == 0) start).bind fun state =>
      moves.foldlM Transcript.perform (.initial state)
  have loaded := @dbInit_of_isOk path file .calm (by decide +kernel)
  have checked : run.any (fun transcript =>
      decide (transcript.exchanges.map (·.response.statusCode) = [400, 200])) = true := by
    decide +kernel
  obtain ⟨transcript, ran, statuses⟩ := (Option.any_eq_true _ _).mp checked
  obtain ⟨initial, started, moved⟩ := Option.bind_eq_some_iff.mp ran
  exact ⟨transcript, of_decide_eq_true statuses,
    responses_readable loaded started (reaches_of_foldlM moved)⟩

end MiniDbms.Server
