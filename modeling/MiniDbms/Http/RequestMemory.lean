import MiniDbms.Foundation.Memory
import MiniDbms.Http.Cutting

/-! # `http_read_request` in memory

The function on its objects: every access is checked, and so are the sums of sizes. Whatever
the client sends and however it arrives, this has a result, which is that of the function on
the bytes received (`MiniDbms.Http.Memory.follows_run`); so nothing is read that was not
received or set as the terminator, nothing is written outside of the objects, and no sum
wraps (`MiniDbms.Http.Memory.readRequest_inBounds`).
-/

namespace MiniDbms.Http.Memory

open Foundation

/-- `buffer`, of which `used` bytes have been received, and `*request`. -/
structure Frame where
  buffer : Block UInt8
  used : Nat
  method : Block UInt8
  path : Block UInt8
  body : Block UInt8
  bodyLen : Nat

/-- The objects after `memset`. -/
def Frame.start : Frame where
  buffer := .fresh (httpMaxRequest + 1)
  used := 0
  method := .filled 8 0
  path := .filled 128 0
  body := .filled (httpMaxBody + 1) 0
  bodyLen := 0

/-- The sizes that are known once the headers are there. -/
structure Sizes where
  headerLen : Nat
  contentLength : Nat
  totalNeeded : Nat

/-- The loop of `parse_content_length`: where `value` points to, if a line names the
header. -/
def contentLengthValue (buffer : Block UInt8) (line headersEnd : Nat) : Option (Option Nat) :=
  if line < headersEnd then do
    let text ← buffer.string line
    match strstr crlf text with
    | none => return none
    | some lineLen =>
        if headersEnd < line + lineLen || lineLen == 0 then return none
        else if 15 ≤ lineLen && strncasecmpEq text (ascii "Content-Length:") then
          return some (line + 15)
        else contentLengthValue buffer (line + lineLen + 2) headersEnd
  else return none
termination_by headersEnd - line

/-- `parse_content_length`. -/
def parseContentLength (buffer : Block UInt8) (headersEnd : Nat) : Checked Unit Nat := do
  let text ← buffer.string 0
  match strstr crlf text with
  | none => throw ()
  | some requestLine => do
      let found ← contentLengthValue buffer (requestLine + 2) headersEnd
      match found with
      | none => return 0
      | some value => do
          let value ← buffer.skipSpace value
          let text ← buffer.string value
          match strtoul text with
          | none => throw ()
          | some (parsed, _) => return parsed

/-- `sscanf(buffer, "%7s %127s", request->method, request->path)`. -/
def scanRequestLine (frame : Frame) : Checked Unit Frame := do
  let text ← frame.buffer.string 0
  match scanWord 7 text with
  | none => throw ()
  | some (word, text) => do
      let method ← frame.method.writeAll 0 (word ++ [0])
      match scanWord 127 text with
      | none => throw ()
      | some (word, _) => do
          let path ← frame.path.writeAll 0 (word ++ [0])
          return { frame with method := method, path := path }

/-- The part of `http_read_request` between its two loops. -/
def parseHead (frame : Frame) (headersEnd : Nat) : Checked (List UInt8) (Frame × Sizes) := do
  let frame ← orFail (scanRequestLine frame) (ascii "malformed request line")
  let contentLength ← orFail (parseContentLength frame.buffer headersEnd)
    (ascii "invalid Content-Length")
  if httpMaxBody < contentLength then throw (ascii "request body too large")
  else do
    let headerLen ← sizeAdd headersEnd 4
    let totalNeeded ← sizeAdd headerLen contentLength
    if httpMaxRequest < totalNeeded then throw (ascii "request too large")
    else return (frame, ⟨headerLen, contentLength, totalNeeded⟩)

/-- The function between two calls of `recv`: in its first or second loop, or done, with the
last value of `used`. -/
inductive Control where
  | headers (frame : Frame)
  | body (sizes : Sizes) (frame : Frame)
  | returned (used : Nat) (result : Except (List UInt8) Frame)

def Control.used : Control → Nat
  | .headers frame => frame.used
  | .body _ frame => frame.used
  | .returned used _ => used

/-- What follows the second loop. -/
def copyBody (sizes : Sizes) (frame : Frame) : Option Frame := do
  let bytes ← frame.buffer.readAll sizes.headerLen sizes.contentLength
  let body ← frame.body.writeAll 0 bytes
  let body ← body.write sizes.contentLength 0
  return { frame with body := body, bodyLen := sizes.contentLength }

/-- The condition of the second loop. -/
def awaitBody (sizes : Sizes) (frame : Frame) : Option Control :=
  if frame.used < sizes.totalNeeded then some (.body sizes frame)
  else (copyBody sizes frame).map fun frame => .returned frame.used (.ok frame)

/-- The first loop after the terminator has been set. -/
def headersReceived (frame : Frame) : Option Control := do
  let text ← frame.buffer.string 0
  match strstr blankLine text with
  | some headersEnd => do
      let parsed ← (parseHead frame headersEnd).run
      match parsed with
      | .error message => return .returned frame.used (.error message)
      | .ok (frame, sizes) => awaitBody sizes frame
  | none =>
      if frame.used < httpMaxRequest then return .headers frame
      else
        return .returned frame.used (.error (ascii "request headers too large or incomplete"))

/-- `recv` has written these bytes. -/
def Frame.store (frame : Frame) (bytes : List UInt8) : Option Frame := do
  let buffer ← frame.buffer.writeAll frame.used bytes
  let used ← sizeAdd frame.used bytes.length
  return { frame with buffer := buffer, used := used }

/-- The function goes on with an answer of `recv`. -/
def Control.receive : Control → Recv → Option Control
  | .headers frame, .interrupted => some (.headers frame)
  | .headers frame, .failed =>
      some (.returned frame.used (.error (ascii "failed to read request")))
  | .headers frame, .data bytes =>
      if bytes = [] then
        some (.returned frame.used (.error (ascii "client closed connection")))
      else do
        let frame ← frame.store bytes
        let buffer ← frame.buffer.write frame.used 0
        headersReceived { frame with buffer := buffer }
  | .body sizes frame, .interrupted => some (.body sizes frame)
  | .body _ frame, .failed =>
      some (.returned frame.used (.error (ascii "failed to read request body")))
  | .body sizes frame, .data bytes =>
      if bytes = [] then
        some (.returned frame.used (.error (ascii "incomplete request body")))
      else do
        let frame ← frame.store bytes
        awaitBody sizes frame
  | .returned used result, _ => some (.returned used result)

/-- The number of bytes the next `recv` asks for. -/
def Control.requested : Control → Option Nat
  | .headers frame => sizeSub httpMaxRequest frame.used
  | .body sizes frame => sizeSub sizes.totalNeeded frame.used
  | .returned _ _ => some 0

/-- `recv` is interrupted, or fails, or returns up to `extra + 1` bytes of the stream, as far
as there are so many and so many were asked for. -/
inductive Arrival where
  | interrupted
  | failed
  | bytes (extra : Nat)

/-- A call of the function, with what is left of the stream. -/
structure Call where
  control : Control
  left : List UInt8

def Call.recv (call : Call) : Arrival → Option Call
  | .interrupted => do
      let control ← call.control.receive .interrupted
      return { call with control := control }
  | .failed => do
      let control ← call.control.receive .failed
      return { call with control := control }
  | .bytes extra => do
      let limit ← call.control.requested
      let control ← call.control.receive (.data (call.left.take (min (extra + 1) limit)))
      return { control := control, left := call.left.drop (min (extra + 1) limit) }

/-- A call on a stream that arrives this way. -/
def readRequest (stream : List UInt8) (arrivals : List Arrival) : Option Call :=
  arrivals.foldlM Call.recv { control := .headers .start, left := stream }

/-- The same `recv` of the function on the bytes received. -/
def arrive (client : Client) : Arrival → Client
  | .interrupted => client.recv none
  | .failed => { client with reading := client.reading.receive .failed }
  | .bytes extra => client.recv (some extra)

section Headers

variable {buffer : Block UInt8} {text : List UInt8}

/-- The loop over the lines in memory agrees with the one on lists. -/
theorem contentLengthValue_eq (points : buffer.Points 0 text) (headersEnd : Nat) {line : Nat}
    (inside : line ≤ text.length) :
    ∃ found, contentLengthValue buffer line headersEnd = some found ∧
      Http.contentLengthValue (text.drop line) (headersEnd - line) = found.map text.drop ∧
      ∀ value ∈ found, value ≤ text.length := by
  generalize room : headersEnd - line = left
  induction left using Nat.strongRecOn generalizing line with
  | ind left ih =>
      rw [contentLengthValue, Http.contentLengthValue]
      by_cases more : line < headersEnd
      · have here := (points.drop inside).string
        rw [Nat.zero_add] at here
        rw [if_pos more, if_neg (by omega), here, Option.bind_eq_bind, Option.bind_some]
        cases found : strstr crlf (text.drop line) with
        | none => exact ⟨none, rfl, rfl, fun _ impossible => by cases impossible⟩
        | some lineLen =>
            have fits := strstr_le crlf_ne_nil found
            rw [List.length_drop] at fits
            change lineLen + 2 ≤ text.length - line at fits
            dsimp only
            have passed : decide (headersEnd < line + lineLen) = decide (left < lineLen) := by
              apply decide_eq_decide.mpr
              omega
            rw [passed]
            split
            · exact ⟨none, rfl, rfl, fun _ impossible => by cases impossible⟩
            · split
              · next named =>
                  rw [Bool.and_eq_true, decide_eq_true_eq] at named
                  refine ⟨some (line + 15), rfl, ?_, ?_⟩
                  · rw [Option.map_some, List.drop_drop]
                  · intro value place
                    rw [← Option.mem_some_iff.mp place]
                    omega
              · next goesOn _ =>
                  have later := @ih (left - (lineLen + 2)) (by omega) (line + lineLen + 2)
                    (by omega) (by omega)
                  rw [List.drop_drop, ← Nat.add_assoc]
                  exact later
      · rw [if_neg more, if_pos (by omega)]
        exact ⟨none, rfl, rfl, fun _ impossible => by cases impossible⟩

/-- So does `parse_content_length`. -/
theorem finds_parseContentLength (points : buffer.Points 0 text) (headersEnd : Nat) :
    Finds Eq (parseContentLength buffer headersEnd) (Http.parseContentLength text headersEnd) := by
  apply Finds.lift points.string
  rw [Http.parseContentLength]
  cases ended : strstr crlf text with
  | none => exact rfl
  | some requestLine =>
      have inside := strstr_le crlf_ne_nil ended
      obtain ⟨found, ran, same, bound⟩ := contentLengthValue_eq points headersEnd inside
      apply Finds.lift ran
      dsimp only
      have same' : Http.contentLengthValue (text.drop (requestLine + 2))
        (headersEnd - (requestLine + 2)) = found.map text.drop := same
      rw [same']
      cases found with
      | none => exact ⟨0, rfl, rfl⟩
      | some value =>
          have there := points.drop (bound value rfl)
          rw [Nat.zero_add] at there
          obtain ⟨next, skipped, behind⟩ := there.skipSpace
          dsimp only [Option.map_some]
          apply Finds.lift skipped
          apply Finds.lift behind.string
          cases strtoul ((text.drop value).dropWhile isSpace) with
          | none => exact rfl
          | some number => exact ⟨_, rfl, rfl⟩

end Headers

/-- The objects have their sizes, and the buffer begins with what has been received. -/
structure Frame.Keeps (frame : Frame) (received : List UInt8) : Prop where
  holds : frame.buffer.Holds received
  used_eq : frame.used = received.length
  fits : received.length ≤ httpMaxRequest
  buffer_size : frame.buffer.size = httpMaxRequest + 1
  method_size : frame.method.size = 8
  path_size : frame.path.size = 128
  body_size : frame.body.size = httpMaxBody + 1

/-- In the beginning nothing has been received. -/
theorem keeps_start : Frame.start.Keeps [] where
  holds := Block.holds_nil _
  used_eq := rfl
  fits := Nat.zero_le _
  buffer_size := List.length_replicate
  method_size := rfl
  path_size := rfl
  body_size := List.length_replicate

/-- `method` and `path` point to the words of the request line, and the lengths are within
the limits. -/
structure Frame.Scanned (frame : Frame) (head : RequestHead) : Prop where
  method : frame.method.Points 0 head.method.bytes
  path : frame.path.Points 0 head.path.bytes
  body_fits : head.contentLength ≤ httpMaxBody
  fits : head.totalNeeded ≤ httpMaxRequest

/-- The sizes that the head stands for. -/
def sizesOf (head : RequestHead) : Sizes := ⟨head.headerLen, head.contentLength, head.totalNeeded⟩

/-- A word is written with its NUL where there is room for both. -/
theorem writeAll_word {block : Block UInt8} {word : List UInt8} {limit : Nat}
    (size : block.size = limit + 1) (short : word.length ≤ limit) (noNul : 0 ∉ word) :
    ∃ next, block.writeAll 0 (word ++ [0]) = some next ∧ next.Points 0 word ∧
      next.size = block.size := by
  have room : (word ++ [0]).length ≤ block.size := by
    rw [List.length_append, List.length_singleton]
    omega
  obtain ⟨next, written, holds, same⟩ := Block.writeAll_start room
  exact ⟨next, written, holds.points noNul, same⟩

/-- A word fits into its buffer, and no NUL is read. -/
theorem scanWord_spec {limit : Nat} {text word rest : List UInt8} (noNul : 0 ∉ text)
    (scanned : scanWord limit text = some (word, rest)) :
    word.length ≤ limit ∧ 0 ∉ word ∧ 0 ∉ rest := by
  obtain ⟨_, isWord, whole⟩ := scanWord_eq_some_iff.mp scanned
  have inside : 0 ∉ word ++ rest := by
    rw [← whole]
    exact fun member => noNul ((List.dropWhile_suffix _).subset member)
  rw [List.mem_append, not_or] at inside
  refine ⟨?_, inside⟩
  rw [isWord]
  exact List.length_take_le _ _

/-- The two words, in the objects for them. -/
theorem finds_scanRequestLine {frame : Frame} {received text : List UInt8}
    (keeps : frame.Keeps received) (points : frame.buffer.Points 0 text) :
    Finds (fun next words => next.Keeps received ∧ next.buffer = frame.buffer ∧
        next.method.Points 0 words.1 ∧ next.path.Points 0 words.2 ∧ words.1.length ≤ 7 ∧
        words.2.length ≤ 127)
      (scanRequestLine frame) (Http.scanRequestLine text) := by
  apply Finds.lift points.string
  rw [Http.scanRequestLine]
  cases first : scanWord 7 text with
  | none => exact rfl
  | some scanned =>
      obtain ⟨word, rest⟩ := scanned
      obtain ⟨short, noNul, later⟩ := scanWord_spec points.1 first
      obtain ⟨method, written, method_points, method_size⟩ :=
        writeAll_word keeps.method_size short noNul
      apply Finds.lift written
      rw [Option.bind_eq_bind, Option.bind_some]
      dsimp only
      cases second : scanWord 127 rest with
      | none => exact rfl
      | some scanned =>
          obtain ⟨other, last⟩ := scanned
          obtain ⟨short', noNul', _⟩ := scanWord_spec later second
          obtain ⟨path, written, path_points, path_size⟩ :=
            writeAll_word keeps.path_size short' noNul'
          apply Finds.lift written
          exact ⟨_, rfl, ⟨keeps.holds, keeps.used_eq, keeps.fits, keeps.buffer_size,
            method_size.trans keeps.method_size, path_size.trans keeps.path_size, keeps.body_size⟩,
            rfl, method_points, path_points, short, short'⟩

/-- No sum wraps, because the length has been compared with the limit before. -/
theorem agrees_parseHead {frame : Frame} {received : List UInt8} (keeps : frame.Keeps received)
    (terminated : frame.buffer.Holds (received ++ [0])) {headersEnd : Nat}
    (early : headersEnd ≤ httpMaxRequest) :
    Agrees (fun next head => next.1.Keeps received ∧ next.1.Scanned head ∧ next.2 = sizesOf head)
      (parseHead frame headersEnd) (Http.parseHead received headersEnd) := by
  have points := terminated.points_ofBuffer
  have unfolded : Http.parseHead received headersEnd =
      (Http.scanRequestLine (CString.ofBuffer received).bytes).elim
        (.error (ascii "malformed request line")) fun words =>
          (Http.parseContentLength (CString.ofBuffer received).bytes headersEnd).elim
            (.error (ascii "invalid Content-Length")) fun contentLength =>
              if httpMaxBody < contentLength then .error (ascii "request body too large")
              else if httpMaxRequest < headersEnd + 4 + contentLength then
                .error (ascii "request too large")
              else
                .ok {
                  method := (CString.ofBuffer words.1).truncate 7
                  path := (CString.ofBuffer words.2).truncate 127
                  contentLength := contentLength
                  headerLen := headersEnd + 4 } := by
    rw [Http.parseHead]
    cases Http.scanRequestLine (CString.ofBuffer received).bytes with
    | none => rfl
    | some words =>
        cases Http.parseContentLength (CString.ofBuffer received).bytes headersEnd <;> rfl
  rw [unfolded]
  apply (finds_scanRequestLine keeps points).bind_orFail
  rintro next ⟨method, path⟩ ⟨keeps, same, method_points, path_points, method_short, path_short⟩
  apply (finds_parseContentLength (same ▸ points) headersEnd).bind_orFail
  rintro contentLength _ rfl
  split
  · exact rfl
  · next small =>
      have small : contentLength ≤ httpMaxBody := Nat.not_lt.mp small
      have bound : headersEnd + 4 + contentLength ≤ sizeMax := by
        simp only [httpMaxRequest, httpMaxBody, sizeMax] at early small ⊢
        omega
      apply Agrees.lift (if_pos (Nat.le_trans (Nat.le_add_right _ _) bound))
      apply Agrees.lift (if_pos bound)
      split
      · exact rfl
      · next room =>
        have method_whole := BoundedString.truncate_ofBuffer method_points.1 method_short
        have path_whole := BoundedString.truncate_ofBuffer path_points.1 path_short
        refine ⟨_, rfl, keeps, ⟨?_, ?_, small, Nat.not_lt.mp room⟩, rfl⟩
        · rwa [method_whole]
        · rwa [path_whole]

/-- The function is in the same place, having received these bytes. -/
def Related (received : List UInt8) : Control → Reading → Prop
  | .headers frame, .headers got =>
      got = received ∧ frame.Keeps received ∧ received.length < httpMaxRequest
  | .body sizes frame, .body head got =>
      got = received ∧ frame.Keeps received ∧ frame.Scanned head ∧ sizes = sizesOf head ∧
        received.length < head.totalNeeded
  | .returned used (.error message), .returned (.error other) =>
      used = received.length ∧ received.length ≤ httpMaxRequest ∧ message = other
  | .returned used (.ok frame), .returned (.ok request) =>
      used = received.length ∧ ∃ head, frame.Keeps received ∧ frame.Scanned head ∧
        head.totalNeeded ≤ received.length ∧
        frame.bodyLen = head.contentLength ∧ frame.body.Holds (request.body ++ [0]) ∧
        request = {
          method := head.method
          path := head.path
          body := (received.drop head.headerLen).take head.contentLength
          bodyLen := head.contentLength }
  | _, _ => False

variable {frame : Frame} {received : List UInt8}

/-- The body has been received, and there is room for it. -/
theorem copyBody_some {head : RequestHead} (keeps : frame.Keeps received)
    (fits : head.contentLength ≤ httpMaxBody) (enough : head.totalNeeded ≤ received.length) :
    ∃ body, copyBody (sizesOf head) frame =
        some { frame with body := body, bodyLen := head.contentLength } ∧
      body.size = frame.body.size ∧
      body.Holds ((received.drop head.headerLen).take head.contentLength ++ [0]) := by
  have bytes := keeps.holds.readAll enough
  have length : ((received.drop head.headerLen).take head.contentLength).length =
      head.contentLength := by
    rw [List.length_take, List.length_drop]
    simp only [RequestHead.totalNeeded] at enough
    omega
  generalize (received.drop head.headerLen).take head.contentLength = taken at bytes length ⊢
  have room : taken.length < frame.body.size := by
    rw [keeps.body_size, length]
    exact Nat.lt_succ_of_le fits
  obtain ⟨middle, written, holds, same⟩ := Block.writeAll_start room.le
  obtain ⟨last, ended, holds', same'⟩ := holds.write (same ▸ room) 0
  rw [length] at ended
  refine ⟨last, ?_, same'.trans same, holds'⟩
  change (frame.buffer.readAll head.headerLen head.contentLength).bind _ = _
  rw [bytes]
  change (frame.body.writeAll 0 taken).bind _ = _
  rw [written]
  change (middle.write head.contentLength 0).bind _ = _
  rw [ended]
  rfl

/-- The second loop begins alike. -/
theorem related_awaitBody {head : RequestHead} (keeps : frame.Keeps received)
    (scanned : frame.Scanned head) :
    ∃ control, awaitBody (sizesOf head) frame = some control ∧
      Related received control (Http.awaitBody head received) := by
  rw [awaitBody, Http.awaitBody, keeps.used_eq]
  change ∃ control, (if received.length < head.totalNeeded then _ else _) = some control ∧ _
  split
  · next short => exact ⟨_, rfl, rfl, keeps, scanned, rfl, short⟩
  · next enough =>
      have enough : head.totalNeeded ≤ received.length := Nat.not_lt.mp enough
      obtain ⟨body, copied, size, holds⟩ := copyBody_some keeps scanned.body_fits enough
      rw [copied]
      refine ⟨_, rfl, keeps.used_eq, head, ?_, ⟨scanned.method, scanned.path, scanned.body_fits,
        scanned.fits⟩, enough, rfl, holds, rfl⟩
      exact ⟨keeps.holds, keeps.used_eq, keeps.fits, keeps.buffer_size, keeps.method_size,
        keeps.path_size, size.trans keeps.body_size⟩

/-- After the terminator has been set behind what has been received. -/
theorem related_headersReceived (keeps : frame.Keeps received)
    (terminated : frame.buffer.Holds (received ++ [0])) :
    ∃ control, headersReceived frame = some control ∧
      Related received control (Http.headersReceived received) := by
  have points := terminated.points_ofBuffer
  have text := points.string
  rw [headersReceived, Http.headersReceived, text, Option.bind_eq_bind, Option.bind_some]
  cases found : strstr blankLine (CString.ofBuffer received).bytes with
  | none =>
      dsimp only
      rw [keeps.used_eq]
      split
      · next room => exact ⟨_, rfl, rfl, keeps, room⟩
      · exact ⟨_, rfl, rfl, keeps.fits, rfl⟩
  | some headersEnd =>
      have inside := strstr_le blankLine_ne_nil found
      have short := (List.takeWhile_prefix (· != 0) (l := received)).length_le
      have fits := keeps.fits
      have early : headersEnd ≤ httpMaxRequest := by
        change _ ≤ (received.takeWhile (· != 0)).length at inside
        omega
      have agrees := agrees_parseHead keeps terminated early
      dsimp only
      cases parsed : Http.parseHead received headersEnd with
      | error message =>
          rw [parsed] at agrees
          rw [show (parseHead frame headersEnd).run = _ from agrees]
          exact ⟨_, rfl, keeps.used_eq, keeps.fits, rfl⟩
      | ok head =>
          rw [parsed] at agrees
          obtain ⟨⟨next, sizes⟩, ran, keeps, scanned, same⟩ := agrees
          rw [ran]
          have sizes_eq : sizes = sizesOf head := same
          rw [sizes_eq]
          exact related_awaitBody keeps scanned

/-- The bytes of `recv` are stored behind those received. -/
theorem Frame.Keeps.store (keeps : frame.Keeps received) {bytes : List UInt8}
    (room : received.length + bytes.length ≤ httpMaxRequest) :
    ∃ next, frame.store bytes = some next ∧ next.Keeps (received ++ bytes) ∧
      next.method = frame.method ∧ next.path = frame.path := by
  have limit : httpMaxRequest ≤ sizeMax := by decide
  obtain ⟨buffer, written, holds, same⟩ := @Block.Holds.writeAll _ _ _ bytes keeps.holds (by
    rw [keeps.buffer_size]
    omega)
  have sum : sizeAdd frame.used bytes.length = some (frame.used + bytes.length) := by
    rw [keeps.used_eq]
    exact if_pos (by omega)
  refine ⟨{ frame with buffer := buffer, used := frame.used + bytes.length }, ?_, ?_, rfl, rfl⟩
  · rw [Frame.store, keeps.used_eq, written, ← keeps.used_eq]
    change (sizeAdd frame.used bytes.length).bind _ = _
    rw [sum]
    rfl
  · refine ⟨holds, ?_, ?_, same.trans keeps.buffer_size, keeps.method_size, keeps.path_size,
      keeps.body_size⟩
    · change frame.used + _ = _
      rw [keeps.used_eq, List.length_append]
    · rwa [List.length_append]

/-- Bytes are received alike. -/
theorem related_receive {control : Control} {reading : Reading}
    (related : Related received control reading) {bytes : List UInt8}
    (asked : bytes.length ≤ reading.requested) :
    ∃ next, control.receive (.data bytes) = some next ∧
      Related (received ++ bytes) next (reading.receive (.data bytes)) := by
  cases control with
  | headers frame =>
      cases reading with
      | headers got =>
          obtain ⟨rfl, keeps, room⟩ := related
          change bytes.length ≤ httpMaxRequest - got.length at asked
          by_cases ended : bytes = []
          · rw [ended, List.append_nil]
            exact ⟨_, rfl, keeps.used_eq, keeps.fits, rfl⟩
          · have fits : got.length + bytes.length ≤ httpMaxRequest := by omega
            obtain ⟨next, stored, kept, _, _⟩ := keeps.store fits
            obtain ⟨buffer, written, holds, same⟩ := kept.holds.write (by
              rw [kept.buffer_size]
              exact Nat.lt_succ_of_le kept.fits) 0
            have kept' : ({ next with buffer := buffer } : Frame).Keeps (got ++ bytes) :=
              ⟨holds.of_append, kept.used_eq, kept.fits, same.trans kept.buffer_size,
                kept.method_size, kept.path_size, kept.body_size⟩
            obtain ⟨control, ran, related⟩ := related_headersReceived kept' holds
            refine ⟨control, ?_, ?_⟩
            · rw [← kept.used_eq] at written
              rw [Control.receive, if_neg ended, stored, Option.bind_eq_bind, Option.bind_some,
                written]
              exact ran
            · rwa [Reading.receive, if_neg ended]
      | body | returned => exact related.elim
  | body sizes frame =>
      cases reading with
      | body head got =>
          obtain ⟨rfl, keeps, scanned, rfl, short⟩ := related
          change bytes.length ≤ head.totalNeeded - got.length at asked
          by_cases ended : bytes = []
          · rw [ended, List.append_nil]
            exact ⟨_, rfl, keeps.used_eq, keeps.fits, rfl⟩
          · have fits := scanned.fits
            have room : got.length + bytes.length ≤ httpMaxRequest := by omega
            obtain ⟨next, stored, kept, method, path⟩ := keeps.store room
            have scanned' : next.Scanned head :=
              ⟨method ▸ scanned.method, path ▸ scanned.path, scanned.body_fits, fits⟩
            obtain ⟨control, ran, related⟩ := related_awaitBody kept scanned'
            refine ⟨control, ?_, ?_⟩
            · rw [Control.receive, if_neg ended, stored]
              exact ran
            · rwa [Reading.receive, if_neg ended]
      | headers | returned => exact related.elim
  | returned used result =>
      cases reading with
      | returned other =>
          have none_ : bytes = [] := List.eq_nil_of_length_eq_zero (Nat.le_zero.mp asked)
          rw [none_, List.append_nil]
          exact ⟨_, rfl, related⟩
      | headers | body => cases result <;> exact related.elim

/-- As many bytes are asked for. -/
theorem requested_eq {control : Control} {reading : Reading}
    (related : Related received control reading) :
    control.requested = some reading.requested := by
  cases control with
  | headers frame =>
      cases reading with
      | headers got =>
          obtain ⟨rfl, keeps, room⟩ := related
          rw [Control.requested, keeps.used_eq]
          exact if_pos room.le
      | body | returned => exact related.elim
  | body sizes frame =>
      cases reading with
      | body head got =>
          obtain ⟨rfl, keeps, _, rfl, short⟩ := related
          rw [Control.requested, keeps.used_eq]
          exact if_pos short.le
      | headers | returned => exact related.elim
  | returned used result =>
      cases reading with
      | returned other => rfl
      | headers | body => cases result <;> exact related.elim

/-- A call whose answer leaves the buffer alone. -/
theorem related_undelivered {control : Control} {reading : Reading}
    (related : Related received control reading) :
    (∃ next, control.receive .interrupted = some next ∧
      Related received next (reading.receive .interrupted)) ∧
    ∃ next, control.receive .failed = some next ∧
      Related received next (reading.receive .failed) := by
  cases control with
  | headers frame =>
      cases reading with
      | headers got =>
          have keeps : frame.Keeps received := related.2.1
          exact ⟨⟨_, rfl, related⟩, _, rfl, keeps.used_eq, keeps.fits, rfl⟩
      | body | returned => exact related.elim
  | body sizes frame =>
      cases reading with
      | body head got =>
          have keeps : frame.Keeps received := related.2.1
          exact ⟨⟨_, rfl, related⟩, _, rfl, keeps.used_eq, keeps.fits, rfl⟩
      | headers | returned => exact related.elim
  | returned used result =>
      cases reading with
      | returned other => exact ⟨⟨_, rfl, related⟩, _, rfl, related⟩
      | headers | body => cases result <;> exact related.elim

/-- The call and the function on the bytes received are in the same place of the stream. -/
def Follows (stream : List UInt8) (call : Call) (client : Client) : Prop :=
  client.left = call.left ∧ ∃ received, received ++ call.left = stream ∧
    Related received call.control client.reading

/-- Every answer of `recv` is followed. -/
theorem Follows.recv {stream : List UInt8} {call : Call} {client : Client}
    (follows : Follows stream call client) (arrival : Arrival) :
    ∃ next, call.recv arrival = some next ∧ Follows stream next (arrive client arrival) := by
  obtain ⟨control, left⟩ := call
  obtain ⟨reading, left'⟩ := client
  obtain ⟨same, received, whole, related⟩ := follows
  change left' = left at same
  subst same
  cases arrival with
  | interrupted =>
      obtain ⟨⟨next, ran, related⟩, _⟩ := related_undelivered related
      refine ⟨⟨next, left'⟩, ?_, rfl, received, whole, related⟩
      rw [Call.recv, ran]
      rfl
  | failed =>
      obtain ⟨_, next, ran, related⟩ := related_undelivered related
      refine ⟨⟨next, left'⟩, ?_, rfl, received, whole, related⟩
      rw [Call.recv, ran]
      rfl
  | bytes extra =>
      have asked := requested_eq related
      obtain ⟨next, ran, related⟩ := @related_receive _ _ _ related
        (left'.take (min (extra + 1) reading.requested))
        ((List.length_take_le _ _).trans (Nat.min_le_right _ _))
      refine ⟨⟨next, left'.drop (min (extra + 1) reading.requested)⟩, ?_, rfl, _, ?_, related⟩
      · change control.requested.bind _ = _
        rw [asked, Option.bind_some]
        change (control.receive (.data (left'.take _))).bind _ = _
        rw [ran]
        rfl
      · rw [List.append_assoc, List.take_append_drop]
        exact whole

/-- However the stream arrives, no access of the run is out of bounds. -/
theorem follows_run (stream : List UInt8) (arrivals : List Arrival) :
    ∃ call, readRequest stream arrivals = some call ∧
      Follows stream call (arrivals.foldl arrive { reading := .headers [], left := stream }) := by
  have run : ∀ (call : Call) (client : Client), Follows stream call client →
      ∃ last, arrivals.foldlM Call.recv call = some last ∧
        Follows stream last (arrivals.foldl arrive client) := by
    induction arrivals with
    | nil => exact fun call client follows => ⟨call, rfl, follows⟩
    | cons arrival arrivals ih =>
        intro call client follows
        obtain ⟨next, step, follows⟩ := follows.recv arrival
        obtain ⟨last, steps, follows⟩ := ih next _ follows
        refine ⟨last, ?_, follows⟩
        rw [List.foldlM_cons, step]
        exact steps
  exact run _ _ ⟨rfl, [], rfl, rfl, keeps_start, by decide⟩

/-- What is known of the objects when these bytes have been received. -/
def Control.InBounds (control : Control) (received : List UInt8) : Prop :=
  match control with
  | .headers frame => frame.Keeps received
  | .body sizes frame => frame.Keeps received ∧
      sizes.totalNeeded = sizes.headerLen + sizes.contentLength ∧
        sizes.totalNeeded ≤ httpMaxRequest
  | .returned _ (.error _) => True
  | .returned _ (.ok frame) => frame.Keeps received ∧ ∃ headerLen,
      headerLen + frame.bodyLen ≤ received.length ∧
        frame.body.Holds ((received.drop headerLen).take frame.bodyLen ++ [0])

/-- **Reading stays in bounds.** Whatever is sent and however it arrives, the call goes on, what
it has used is what was received, and the objects keep their sizes and their contents. -/
theorem readRequest_inBounds (stream : List UInt8) (arrivals : List Arrival) :
    ∃ call received, readRequest stream arrivals = some call ∧ received ++ call.left = stream ∧
      call.control.used = received.length ∧ call.control.used ≤ httpMaxRequest ∧
      call.control.InBounds received := by
  obtain ⟨⟨control, left⟩, ran, _, received, whole, related⟩ := follows_run stream arrivals
  refine ⟨⟨control, left⟩, received, ran, whole, ?_⟩
  generalize (arrivals.foldl arrive _).reading = reading at related
  cases control with
  | headers frame =>
      cases reading with
      | headers got =>
          obtain ⟨_, keeps, _⟩ := related
          exact ⟨keeps.used_eq, keeps.used_eq.trans_le keeps.fits, keeps⟩
      | body | returned => exact related.elim
  | body sizes frame =>
      cases reading with
      | body head got =>
          obtain ⟨_, keeps, scanned, rfl, _⟩ := related
          exact ⟨keeps.used_eq, keeps.used_eq.trans_le keeps.fits, keeps, rfl, scanned.fits⟩
      | headers | returned => exact related.elim
  | returned used result =>
      cases reading with
      | headers | body => cases result <;> exact related.elim
      | returned other =>
          cases result with
          | error message =>
              cases other with
              | error => exact ⟨related.1, related.1.trans_le related.2.1, trivial⟩
              | ok => exact related.elim
          | ok frame =>
              cases other with
              | error => exact related.elim
              | ok request =>
                  obtain ⟨used_eq, head, keeps, scanned, enough, length, holds, rfl⟩ := related
                  refine ⟨used_eq, used_eq.trans_le keeps.fits, keeps, head.headerLen, ?_⟩
                  rw [length]
                  exact ⟨enough, holds⟩

end MiniDbms.Http.Memory
