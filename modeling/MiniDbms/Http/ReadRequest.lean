import MiniDbms.Foundation.CText
import MiniDbms.Foundation.Machine

/-! # `http_read_request`

The function sees the answers of `recv` one after another; `buffer[0 .. used)` is
the list of the bytes received so far, and a pointer into it is an offset or what is
left of the text. `MiniDbms.Http.Reading` is the state of the function between two
calls of `recv`, and `MiniDbms.Http.clientMachine` runs it against a client whose
stream the network cuts as it likes.
-/

namespace MiniDbms.Http

open Foundation

/-- `HTTP_MAX_REQUEST`. -/
def httpMaxRequest : Nat := 65536

/-- `HTTP_MAX_BODY`. -/
def httpMaxBody : Nat := 32768

/-- `HttpRequest`; `body` is `body[0 .. body_len)`. -/
structure HttpRequest where
  method : BoundedString 7
  path : BoundedString 127
  body : List UInt8
  bodyLen : Nat
  deriving DecidableEq

/-- `"\r\n"`. -/
def crlf : List UInt8 := [carriageReturn, lineFeed]

/-- `"\r\n\r\n"`. -/
def blankLine : List UInt8 := crlf ++ crlf

/-- The loop of `parse_content_length`: the text that `value` points to, in the first
line that names the header. `line` points `left` bytes before `headers_end`. -/
def contentLengthValue (line : List UInt8) (left : Nat) : Option (List UInt8) :=
  if left = 0 then none
  else
    match strstr crlf line with
    | none => none
    | some lineLen =>
        if left < lineLen || lineLen == 0 then none
        else if 15 ≤ lineLen && strncasecmpEq line (ascii "Content-Length:") then
          some (line.drop 15)
        else contentLengthValue (line.drop (lineLen + 2)) (left - (lineLen + 2))
termination_by left

/-- `parse_content_length`: nothing where it returns 0. -/
def parseContentLength (text : List UInt8) (headersEnd : Nat) : Option Nat :=
  match strstr crlf text with
  | none => none
  | some requestLine =>
      match contentLengthValue (text.drop (requestLine + 2)) (headersEnd - (requestLine + 2)) with
      | none => some 0
      | some value => (strtoul (value.dropWhile isSpace)).map Prod.fst

/-- `sscanf(buffer, "%7s %127s", request->method, request->path)`. -/
def scanRequestLine (text : List UInt8) : Option (List UInt8 × List UInt8) := do
  let (method, text) ← scanWord 7 text
  let (path, _) ← scanWord 127 text
  return (method, path)

/-- What the function knows once the headers are there. -/
structure RequestHead where
  method : BoundedString 7
  path : BoundedString 127
  contentLength : Nat
  headerLen : Nat

/-- `total_needed`. -/
def RequestHead.totalNeeded (head : RequestHead) : Nat := head.headerLen + head.contentLength

/-- The part of `http_read_request` between its two loops, on the bytes received. -/
def parseHead (received : List UInt8) (headersEnd : Nat) : Except (List UInt8) RequestHead :=
  let text := (CString.ofBuffer received).bytes
  match scanRequestLine text with
  | none => .error (ascii "malformed request line")
  | some (method, path) =>
      match parseContentLength text headersEnd with
      | none => .error (ascii "invalid Content-Length")
      | some contentLength =>
          if httpMaxBody < contentLength then .error (ascii "request body too large")
          else if httpMaxRequest < headersEnd + 4 + contentLength then
            .error (ascii "request too large")
          else
            .ok {
              method := (CString.ofBuffer method).truncate 7
              path := (CString.ofBuffer path).truncate 127
              contentLength := contentLength
              headerLen := headersEnd + 4 }

/-- The function between two calls of `recv`: in its first or second loop, or done. -/
inductive Reading where
  | headers (received : List UInt8)
  | body (head : RequestHead) (received : List UInt8)
  | returned (result : Except (List UInt8) HttpRequest)

/-- What `recv` answers: -1 with `EINTR`, -1 with another error, or bytes; none at the
end of the stream. -/
inductive Recv where
  | interrupted
  | failed
  | data (bytes : List UInt8)

/-- The condition of the second loop, and what follows it. -/
def awaitBody (head : RequestHead) (received : List UInt8) : Reading :=
  if received.length < head.totalNeeded then .body head received
  else
    .returned (.ok {
      method := head.method
      path := head.path
      body := (received.drop head.headerLen).take head.contentLength
      bodyLen := head.contentLength })

/-- The first loop after `recv` stored more bytes. -/
def headersReceived (received : List UInt8) : Reading :=
  match strstr blankLine (CString.ofBuffer received).bytes with
  | some headersEnd =>
      match parseHead received headersEnd with
      | .error message => .returned (.error message)
      | .ok head => awaitBody head received
  | none =>
      if received.length < httpMaxRequest then .headers received
      else .returned (.error (ascii "request headers too large or incomplete"))

/-- The function goes on with an answer of `recv`. -/
def Reading.receive : Reading → Recv → Reading
  | .headers received, .interrupted => .headers received
  | .headers _, .failed => .returned (.error (ascii "failed to read request"))
  | .headers received, .data bytes =>
      if bytes = [] then .returned (.error (ascii "client closed connection"))
      else headersReceived (received ++ bytes)
  | .body head received, .interrupted => .body head received
  | .body _ _, .failed => .returned (.error (ascii "failed to read request body"))
  | .body head received, .data bytes =>
      if bytes = [] then .returned (.error (ascii "incomplete request body"))
      else awaitBody head (received ++ bytes)
  | .returned result, _ => .returned result

/-- The number of bytes the next `recv` asks for. -/
def Reading.requested : Reading → Nat
  | .headers received => httpMaxRequest - received.length
  | .body head received => head.totalNeeded - received.length
  | .returned _ => 0

/-- A client's stream, of which `left` is still to be received. -/
structure Client where
  reading : Reading
  left : List UInt8

/-- `recv` returns this many bytes of the stream, or as many as are left. -/
def Client.deliver (client : Client) (count : Nat) : Client where
  reading := client.reading.receive (.data (client.left.take count))
  left := client.left.drop count

/-- `recv` is interrupted, or returns up to `extra + 1` bytes of the stream, as far as
there are so many and so many were asked for; none only at the end of the stream. -/
def Client.recv (client : Client) : Option Nat → Client
  | none => { client with reading := client.reading.receive .interrupted }
  | some extra => client.deliver (min (extra + 1) client.reading.requested)

/-- The runs of the function: each input is what one `recv` does. -/
def clientMachine : Machine Client (Option Nat) Unit where
  step client cut := ((), client.recv cut)

/-- `http_read_request` when the stream is cut this way: what it returns, if these
answers of `recv` are enough for it to return. -/
def httpReadRequest (stream : List UInt8) (cuts : List (Option Nat)) :
    Option (Except (List UInt8) HttpRequest) :=
  match (clientMachine.run { reading := .headers [], left := stream } cuts).2.reading with
  | .returned result => some result
  | _ => none

end MiniDbms.Http
