import MiniDbms.Http.Headers

/-! # What the cutting of a stream decides

What `http_read_request` returns depends on the cutting of the stream only through
the number of bytes that are in the buffer when the end of the headers is found
(`MiniDbms.Http.httpReadRequest_outcome`), and every number that the stream allows
can occur (`MiniDbms.Http.exists_cuts`). As long as the function has not returned,
every answer of `recv` but `EINTR` takes a byte from the stream
(`MiniDbms.Http.run_progress`).
-/

namespace MiniDbms.Http

open Foundation

/-- The part of the stream that the header functions can see: what fits into the
buffer, up to the first NUL. -/
def headText (stream : List UInt8) : List UInt8 :=
  (CString.ofBuffer (stream.take httpMaxRequest)).bytes

/-- The header block that the stream begins with, if it fits into the buffer. -/
def headersEndOf (stream : List UInt8) : Option Nat := strstr blankLine (headText stream)

variable {stream : List UInt8} {headersEnd used : Nat}

/-- The text in the buffer after `used` bytes. -/
theorem text_take (stream : List UInt8) (fits : used ≤ httpMaxRequest) :
    (CString.ofBuffer (stream.take used)).bytes = (headText stream).take used := by
  change (stream.take used).takeWhile (· != 0) =
    ((stream.take httpMaxRequest).takeWhile (· != 0)).take used
  rw [← List.take_takeWhile, ← List.take_takeWhile, List.take_take, Nat.min_eq_left fits]

/-- The header functions see no more than the buffer has room for and than was sent. -/
theorem length_headText_le (stream : List UInt8) :
    (headText stream).length ≤ httpMaxRequest ∧ (headText stream).length ≤ stream.length := by
  have short := (List.takeWhile_prefix (· != 0) (l := stream.take httpMaxRequest)).length_le
  rw [List.length_take] at short
  exact ⟨short.trans (Nat.min_le_left _ _), short.trans (Nat.min_le_right _ _)⟩

theorem blankLine_ne_nil : blankLine ≠ [] := nofun

/-- The end of the headers is found once its four bytes have been received. -/
theorem strstr_text_take (fits : used ≤ httpMaxRequest) :
    strstr blankLine (CString.ofBuffer (stream.take used)).bytes = some headersEnd ↔
      headersEndOf stream = some headersEnd ∧ headersEnd + 4 ≤ used := by
  rw [text_take stream fits, strstr_take blankLine_ne_nil]
  rfl

theorem le_length_headText (found : headersEndOf stream = some headersEnd) :
    headersEnd + 4 ≤ (headText stream).length :=
  strstr_le blankLine_ne_nil found

/-- The header block of the stream. -/
def headerText (stream : List UInt8) (headersEnd : Nat) : List UInt8 :=
  (headText stream).take (headersEnd + 4)

/-- What may be in the buffer behind the header block. -/
def behindText (stream : List UInt8) (headersEnd : Nat) : List UInt8 :=
  (headText stream).drop (headersEnd + 4)

theorem headerText_append_behindText (stream : List UInt8) (headersEnd : Nat) :
    headerText stream headersEnd ++ behindText stream headersEnd = headText stream :=
  List.take_append_drop _ _

/-- What is in the buffer when the end of the headers is found. -/
theorem take_headText (least : headersEnd + 4 ≤ used) :
    (headText stream).take used = headerText stream headersEnd ++
      (behindText stream headersEnd).take (used - (headersEnd + 4)) := by
  rw [headerText, behindText, ← List.take_add, Nat.add_sub_cancel' least]

/-- The stream up to its first blank line is a header block. -/
theorem headerBlock (found : headersEndOf stream = some headersEnd) :
    HeaderBlock (headerText stream headersEnd) headersEnd where
  found := (strstr_take blankLine_ne_nil).mpr ⟨found, Nat.le_refl _⟩
  length := by
    rw [headerText, List.length_take]
    exact Nat.min_eq_left (le_length_headText found)

/-- What the function returns when `used` bytes are in the buffer at the time the end
of the headers is found. -/
def outcomeAt (stream : List UInt8) (headersEnd used : Nat) : Except (List UInt8) HttpRequest :=
  match parseHead (stream.take used) headersEnd with
  | .error message => .error message
  | .ok head =>
      if stream.length < head.totalNeeded then .error (ascii "incomplete request body")
      else
        .ok {
          method := head.method
          path := head.path
          body := (stream.drop head.headerLen).take head.contentLength
          bodyLen := head.contentLength }

/-- Numbers of bytes that can be in the buffer at that time. -/
structure Possible (stream : List UInt8) (headersEnd used : Nat) : Prop where
  found : headersEndOf stream = some headersEnd
  least : headersEnd + 4 ≤ used
  fits : used ≤ httpMaxRequest
  sent : used ≤ stream.length

/-- The function has found the end of the headers with `used` bytes in the buffer. -/
def Settled (stream : List UInt8) (headersEnd used : Nat) (client : Client) : Prop :=
  match client.reading with
  | .headers _ => False
  | .body head received =>
      received ++ client.left = stream ∧ parseHead (stream.take used) headersEnd = .ok head ∧
        head.headerLen ≤ received.length ∧ received.length < head.totalNeeded
  | .returned result => result = outcomeAt stream headersEnd used

/-- What is true of the function between two calls of `recv`. -/
def Consistent (stream : List UInt8) (client : Client) : Prop :=
  match client.reading with
  | .headers received =>
      received ++ client.left = stream ∧ received.length < httpMaxRequest ∧
        ∀ headersEnd, headersEndOf stream = some headersEnd → received.length < headersEnd + 4
  | .body _ _ => ∃ headersEnd used, Possible stream headersEnd used ∧
      Settled stream headersEnd used client
  | .returned result =>
      (headersEndOf stream = none ∧ result.toOption = none) ∨
        ∃ headersEnd used, Possible stream headersEnd used ∧
          Settled stream headersEnd used client

/-- The headers end where they were found to, and the request fits into the buffer. -/
theorem headerLen_of_parseHead {received : List UInt8} {head : RequestHead}
    (parsed : parseHead received headersEnd = .ok head) :
    head.headerLen = headersEnd + 4 ∧ head.totalNeeded ≤ httpMaxRequest := by
  simp only [parseHead] at parsed
  split at parsed
  · cases parsed
  · split at parsed
    · cases parsed
    · split at parsed
      · cases parsed
      · split at parsed
        · cases parsed
        · next fits =>
            cases parsed
            exact ⟨rfl, Nat.not_lt.mp fits⟩

/-- The second loop's condition, for bytes received from the stream. -/
theorem settled_awaitBody {head : RequestHead} {received left : List UInt8}
    (all : received ++ left = stream) (parsed : parseHead (stream.take used) headersEnd = .ok head)
    (behind : head.headerLen ≤ received.length) :
    Settled stream headersEnd used { reading := awaitBody head received, left := left } := by
  unfold awaitBody
  split
  · next short => exact ⟨all, parsed, behind, short⟩
  · next enough =>
      have sent : head.totalNeeded ≤ stream.length := by
        rw [← all, List.length_append]
        omega
      change Except.ok _ = outcomeAt stream headersEnd used
      simp only [outcomeAt, parsed, if_neg (Nat.not_lt.mpr sent)]
      have same : (received.drop head.headerLen).take head.contentLength =
          (stream.drop head.headerLen).take head.contentLength := by
        rw [← all, List.drop_append_of_le_length behind, List.take_append_of_le_length]
        rw [List.length_drop]
        simp only [RequestHead.totalNeeded] at enough
        omega
      rw [same]

/-- Bytes for the body do not change the outcome. -/
theorem Settled.deliver {client : Client} (settled : Settled stream headersEnd used client)
    {count : Nat} (positive : 0 < count) :
    Settled stream headersEnd used (client.deliver count) := by
  obtain ⟨reading, left⟩ := client
  cases reading with
  | headers received => exact settled.elim
  | returned result => exact settled
  | body head received =>
      obtain ⟨all, parsed, behind, short⟩ := settled
      simp only [Client.deliver, Reading.receive]
      split
      · next none =>
          -- The stream is at its end: the body stays incomplete.
          have ended : left = [] := by
            rcases List.take_eq_nil_iff.mp none with zero | empty
            · omega
            · exact empty
          have whole : received = stream := by rw [← all, ended, List.append_nil]
          change Except.error _ = outcomeAt stream headersEnd used
          simp only [outcomeAt, parsed, if_pos (whole ▸ short)]
      · refine settled_awaitBody ?_ parsed ?_
        · rw [List.append_assoc, List.take_append_drop, all]
        · rw [List.length_append]
          omega

/-- Nor does any answer of `recv`. -/
theorem Settled.recv {client : Client} (settled : Settled stream headersEnd used client)
    (cut : Option Nat) : Settled stream headersEnd used (client.recv cut) := by
  cases cut with
  | none =>
      obtain ⟨reading, left⟩ := client
      cases reading <;> exact settled
  | some extra =>
      obtain ⟨reading, left⟩ := client
      cases reading with
      | headers received => exact settled.elim
      | returned result => exact settled
      | body head received =>
          have short := settled.2.2.2
          apply settled.deliver
          simp only [Reading.requested]
          omega

/-- A function that has found the end of the headers is consistent. -/
theorem Consistent.of_settled {client : Client} (possible : Possible stream headersEnd used)
    (settled : Settled stream headersEnd used client) : Consistent stream client := by
  obtain ⟨reading, left⟩ := client
  cases reading with
  | headers received => exact settled.elim
  | body head received => exact ⟨headersEnd, used, possible, settled⟩
  | returned result => exact .inr ⟨headersEnd, used, possible, settled⟩

/-- After the first loop stored more bytes of the stream. -/
theorem settled_headersReceived (possible : Possible stream headersEnd used) :
    Settled stream headersEnd used
      { reading := headersReceived (stream.take used), left := stream.drop used } := by
  have located := (strstr_text_take possible.fits).mpr ⟨possible.found, possible.least⟩
  simp only [headersReceived, located]
  split
  · next message parsed =>
      change Except.error message = outcomeAt stream headersEnd used
      rw [outcomeAt, parsed]
  · next head parsed =>
      refine settled_awaitBody (List.take_append_drop used stream) parsed ?_
      rw [(headerLen_of_parseHead parsed).1, List.length_take, Nat.min_eq_left possible.sent]
      exact possible.least

/-- The function is consistent after the first loop stored more bytes. -/
theorem consistent_headersReceived (fits : used ≤ httpMaxRequest) (sent : used ≤ stream.length) :
    Consistent stream
      { reading := headersReceived (stream.take used), left := stream.drop used } := by
  cases located : strstr blankLine (CString.ofBuffer (stream.take used)).bytes with
  | some headersEnd =>
      obtain ⟨found, least⟩ := (strstr_text_take fits).mp located
      have possible : Possible stream headersEnd used := ⟨found, least, fits, sent⟩
      exact .of_settled possible (settled_headersReceived possible)
  | none =>
      have length : (stream.take used).length = used := by
        rw [List.length_take, Nat.min_eq_left sent]
      have notYet : ∀ headersEnd, headersEndOf stream = some headersEnd →
          used < headersEnd + 4 := by
        intro headersEnd found
        by_contra reached
        have located' := (strstr_text_take fits).mpr ⟨found, Nat.not_lt.mp reached⟩
        rw [located] at located'
        cases located'
      simp only [headersReceived, located, length]
      split
      · next room =>
          exact ⟨List.take_append_drop used stream, length.symm ▸ room, fun headersEnd found => by
            rw [length]
            exact notYet headersEnd found⟩
      · next full =>
          refine .inl ⟨?_, rfl⟩
          by_contra present
          obtain ⟨headersEnd, found⟩ := Option.ne_none_iff_exists'.mp present
          have inside := le_length_headText found
          have atMost := (length_headText_le stream).1
          have before := notYet headersEnd found
          omega

/-- Every answer of `recv` leaves the function consistent. -/
theorem Consistent.recv {client : Client} (consistent : Consistent stream client)
    (cut : Option Nat) : Consistent stream (client.recv cut) := by
  obtain ⟨reading, left⟩ := client
  cases reading with
  | returned result => cases cut <;> exact consistent
  | body head received =>
      obtain ⟨headersEnd, used, possible, settled⟩ := consistent
      exact .of_settled possible (settled.recv cut)
  | headers received =>
      obtain ⟨all, room, notYet⟩ := consistent
      change received ++ left = stream at all
      cases cut with
      | none => exact ⟨all, room, notYet⟩
      | some extra =>
          simp only [Client.recv, Reading.requested]
          have asked : 0 < min (extra + 1) (httpMaxRequest - received.length) := by omega
          have limit : min (extra + 1) (httpMaxRequest - received.length) ≤
              httpMaxRequest - received.length := Nat.min_le_right _ _
          generalize min (extra + 1) (httpMaxRequest - received.length) = count at asked limit ⊢
          simp only [Client.deliver, Reading.receive]
          split
          · next none =>
              -- The client closed before the end of its headers.
              refine .inl ⟨?_, rfl⟩
              have ended : left = [] := by
                rcases List.take_eq_nil_iff.mp none with zero | empty
                · omega
                · exact empty
              have whole : received = stream := by rw [← all, ended, List.append_nil]
              by_contra present
              obtain ⟨headersEnd, found⟩ := Option.ne_none_iff_exists'.mp present
              have inside := le_length_headText found
              have atMost := (length_headText_le stream).2
              have before := notYet headersEnd found
              rw [whole] at before
              omega
          · have isTake : received ++ left.take count =
                stream.take (received.length + (left.take count).length) := by
              conv_rhs => rw [← all, List.take_length_add_append]
              rw [List.length_take, List.take_eq_take_min]
            have isDrop : left.drop count =
                stream.drop (received.length + (left.take count).length) := by
              conv_rhs => rw [← all, List.drop_length_add_append]
              rw [List.length_take, List.drop_eq_drop_min]
            rw [isTake, isDrop]
            apply consistent_headersReceived
            · rw [List.length_take]
              omega
            · rw [← all, List.length_append, List.length_take]
              omega

theorem consistent_initially (stream : List UInt8) :
    Consistent stream { reading := .headers [], left := stream } :=
  ⟨rfl, by decide, fun _ _ => Nat.succ_pos _⟩

/-- What holds between two calls of `recv` and is preserved by each, holds in the end. -/
theorem run_keeps (property : Client → Prop)
    (keeps : ∀ client cut, property client → property (client.recv cut)) {client : Client}
    (initially : property client) (cuts : List (Option Nat)) :
    property (clientMachine.run client cuts).2 :=
  clientMachine.run_invariant property (fun client cut holds _ => keeps client cut holds) initially
    (Machine.meets_of_forall (fun _ _ => trivial) _ : clientMachine.Meets (fun _ _ => True) _ cuts)

/-- **What the function returns.** When the end of the headers is not in the first part
of the stream it fails; otherwise the outcome is that of some number of bytes in the
buffer. -/
theorem httpReadRequest_outcome {cuts : List (Option Nat)}
    {result : Except (List UInt8) HttpRequest}
    (returned : httpReadRequest stream cuts = some result) :
    (headersEndOf stream = none ∧ result.toOption = none) ∨
      ∃ headersEnd used, Possible stream headersEnd used ∧
        result = outcomeAt stream headersEnd used := by
  have finally' := run_keeps (Consistent stream) (fun _ cut consistent => consistent.recv cut)
    (consistent_initially stream) cuts
  unfold httpReadRequest at returned
  cases ending : (clientMachine.run { reading := .headers [], left := stream } cuts).2.reading with
  | headers received => rw [ending] at returned; cases returned
  | body head received => rw [ending] at returned; cases returned
  | returned given =>
      rw [ending] at returned
      cases returned
      simp only [Consistent, Settled, ending] at finally'
      exact finally'

/-- Once the function has returned, nothing changes. -/
theorem run_returned {client : Client} {result : Except (List UInt8) HttpRequest}
    (returned : client.reading = .returned result) (cuts : List (Option Nat)) :
    (clientMachine.run client cuts).2.reading = .returned result :=
  run_keeps (fun client => client.reading = .returned result)
    (fun client cut same => by
      cases cut <;> simp only [Client.recv, Client.deliver, same, Reading.receive]) returned cuts

/-- At the end of the stream the function returns. -/
theorem returned_of_ended (reading : Reading) (extra : Nat) :
    ∃ result, (Client.recv { reading := reading, left := [] } (some extra)).reading =
      .returned result := by
  cases reading with
  | returned result => exact ⟨result, rfl⟩
  | headers received =>
      simp only [Client.recv, Client.deliver, Reading.receive, List.take_nil, ↓reduceIte]
      exact ⟨_, rfl⟩
  | body head received =>
      simp only [Client.recv, Client.deliver, Reading.receive, List.take_nil, ↓reduceIte]
      exact ⟨_, rfl⟩

/-- As long as the function has not returned, every answer but `EINTR` takes a byte from
the stream. -/
theorem run_progress {client : Client} (consistent : Consistent stream client)
    {cuts : List (Option Nat)}
    (waits : ∀ result, (clientMachine.run client cuts).2.reading ≠ .returned result) :
    (clientMachine.run client cuts).2.left.length + cuts.countP Option.isSome ≤
      client.left.length := by
  induction cuts generalizing client with
  | nil => exact Nat.le_refl _
  | cons cut cuts ih =>
      have later := ih (consistent.recv cut) waits
      cases cut with
      | none => simpa only [List.countP_cons, Option.isSome_none, Bool.false_eq_true, ↓reduceIte]
      | some extra =>
          have asked : 0 < client.reading.requested := by
            obtain ⟨reading, left⟩ := client
            cases reading with
            | headers received => exact Nat.sub_pos_of_lt consistent.2.1
            | body head received =>
                obtain ⟨_, _, _, settled⟩ := consistent
                exact Nat.sub_pos_of_lt settled.2.2.2
            | returned result => exact absurd (run_returned rfl _) (waits result)
          have taken : client.left ≠ [] := by
            intro ended
            obtain ⟨reading, left⟩ := client
            obtain rfl : left = [] := ended
            obtain ⟨result, returned⟩ := returned_of_ended reading extra
            exact waits result (run_returned returned cuts)
          have positive := List.length_pos_of_ne_nil taken
          have shorter : (client.recv (some extra)).left.length + 1 ≤ client.left.length := by
            simp only [Client.recv, Client.deliver, List.length_drop]
            omega
          simp only [List.countP_cons, Option.isSome_some, ↓reduceIte]
          change (clientMachine.run (client.recv (some extra)) cuts).2.left.length + _ ≤ _
          omega

/-- Enough answers make the function return. -/
theorem httpReadRequest_returns {cuts : List (Option Nat)}
    (many : stream.length < cuts.countP Option.isSome) :
    ∃ result, httpReadRequest stream cuts = some result := by
  have progress := @run_progress stream _ (consistent_initially stream) cuts
  unfold httpReadRequest
  cases ending : (clientMachine.run { reading := .headers [], left := stream } cuts).2.reading with
  | returned result => exact ⟨result, rfl⟩
  | headers received =>
      have atMost := progress (by rw [ending]; exact nofun)
      simp only at atMost
      omega
  | body head received =>
      have atMost := progress (by rw [ending]; exact nofun)
      simp only at atMost
      omega

/-- **Every outcome occurs.** -/
theorem exists_cuts (possible : Possible stream headersEnd used) :
    ∃ cuts, httpReadRequest stream cuts = some (outcomeAt stream headersEnd used) := by
  obtain ⟨found, least, fits, sent⟩ := possible
  let cuts := some (used - 1) :: List.replicate (stream.length + 1) (some 0)
  have started : Client.recv { reading := .headers [], left := stream } (some (used - 1)) =
      { reading := headersReceived (stream.take used), left := stream.drop used } := by
    have count : min (used - 1 + 1) (httpMaxRequest - 0) = used := by omega
    have bytes : stream.take used ≠ [] := by
      apply List.ne_nil_of_length_pos
      rw [List.length_take]
      omega
    simp only [Client.recv, Client.deliver, Reading.requested, List.length_nil, count,
      Reading.receive, bytes, ↓reduceIte, List.nil_append]
  have settled := run_keeps (Settled stream headersEnd used)
    (fun _ cut settled => settled.recv cut) (settled_headersReceived ⟨found, least, fits, sent⟩)
    (List.replicate (stream.length + 1) (some 0))
  obtain ⟨result, returned⟩ := @httpReadRequest_returns stream cuts (by
    simp only [cuts, List.countP_cons, Option.isSome_some, ↓reduceIte, List.countP_replicate]
    omega)
  refine ⟨cuts, ?_⟩
  rw [returned]
  unfold httpReadRequest at returned
  simp only [cuts, Machine.run_cons] at returned
  rw [show (clientMachine.step { reading := .headers [], left := stream } (some (used - 1))).2 = _
    from started] at returned
  split at returned
  · next given ending =>
      cases returned
      simp only [Settled, ending] at settled
      rw [settled]
  · cases returned

end MiniDbms.Http
