import MiniDbms.Foundation.Allocation
import MiniDbms.Http.WellFormed

/-! # `http_send_json_with_thread`

The answers of `send` come one after another. Whatever they are, the bytes that the socket
has accepted are a proper prefix of the response as long as the function fails, and all of
it when it succeeds; the response announces the length of its body
(`MiniDbms.Http.httpSendJsonWithThread_framed`). As many answers as the response has bytes,
interruptions apart, are enough for the function to return
(`MiniDbms.Http.httpSendJsonWithThread_returns`).
-/

namespace MiniDbms.Http

open Foundation

/-- What `send` answers: -1 with `EINTR`, -1 with another error, or the number of bytes that
it took, which are never more than there are. -/
inductive SendAnswer where
  | interrupted
  | failed
  | accepted (count : Nat)

/-- The answers that `send_all` does not go on from. -/
def SendAnswer.Refuses : SendAnswer → Prop
  | .interrupted => False
  | .failed => True
  | .accepted count => count = 0

/-- What has become of a call: its result, the bytes that the socket accepted, and the
answers that are still to come. -/
structure Sent where
  returned : Bool
  accepted : List UInt8
  left : List SendAnswer

/-- `send_all`, on what is left of the buffer; nothing when it needs more answers. -/
def sendAll (buffer : List UInt8) (answers : List SendAnswer) : Option Sent :=
  if buffer = [] then some { returned := true, accepted := [], left := answers }
  else
    match answers with
    | [] => none
    | .interrupted :: answers => sendAll buffer answers
    | .failed :: answers => some { returned := false, accepted := [], left := answers }
    | .accepted count :: answers =>
        if count = 0 then some { returned := false, accepted := [], left := answers }
        else
          (sendAll (buffer.drop count) answers).map fun sent =>
            { sent with accepted := buffer.take count ++ sent.accepted }

/-- The next `send_all`, if the ones before succeeded. -/
def Sent.next (sent : Sent) (buffer : List UInt8) : Option Sent :=
  if sent.returned then
    (sendAll buffer sent.left).map fun next =>
      { next with accepted := sent.accepted ++ next.accepted }
  else some sent

/-- `reason`. -/
def reasonOf (statusCode : Int32) : List UInt8 :=
  if statusCode = 400 then ascii "Bad Request"
  else if statusCode = 404 then ascii "Not Found"
  else if statusCode = 405 then ascii "Method Not Allowed"
  else if 500 ≤ statusCode then ascii "Internal Server Error"
  else ascii "OK"

/-- What `snprintf` would print to `thread_header`. -/
def threadText (workerThreadId : UInt64) : List UInt8 :=
  ascii "X-Worker-Thread-Id: " ++ decimal workerThreadId.toNat ++ crlf

/-- `thread_header`, or nothing where the function returns because it is too small. -/
def threadHeader (workerThreadId : UInt64) : Option (List UInt8) :=
  if workerThreadId ≠ 0 then
    if 96 ≤ (threadText workerThreadId).length then none else some (threadText workerThreadId)
  else some []

/-- What `snprintf` would print to `header`. -/
def responseHeader (statusCode : Int32) (thread : List UInt8) (responseBodyLen : Nat) :
    List UInt8 :=
  ascii "HTTP/1.1 " ++ formatInt statusCode.toInt ++ ascii " " ++ reasonOf statusCode ++ crlf ++
    (ascii "Content-Type: application/json" ++ crlf) ++ thread ++
    (ascii "Content-Length: " ++ decimal responseBodyLen ++ crlf) ++
    (ascii "Connection: close" ++ crlf) ++ crlf

/-- `needs_newline`. -/
def needsNewline (body : CString) : Bool := body.bytes.getLast? != some lineFeed

/-- `response_body_len`, a `size_t`. -/
def responseBodyLen (body : CString) : Nat :=
  (body.bytes.length + if needsNewline body then 1 else 0) % (sizeMax + 1)

/-- `http_send_json_with_thread`. -/
def httpSendJsonWithThread (statusCode : Int32) (jsonBody : CString) (workerThreadId : UInt64)
    (answers : List SendAnswer) : Option Sent :=
  match threadHeader workerThreadId with
  | none => some { returned := false, accepted := [], left := answers }
  | some thread =>
      let header := responseHeader statusCode thread (responseBodyLen jsonBody)
      if 512 ≤ header.length then some { returned := false, accepted := [], left := answers }
      else do
        let sent ← sendAll header answers
        let sent ← sent.next jsonBody.bytes
        if needsNewline jsonBody then sent.next [lineFeed] else some sent

/-- The message was accepted whole, or one of the answers refused a part of it. -/
structure Delivers (message : List UInt8) (answers : List SendAnswer) (sent : Sent) : Prop where
  whole : sent.returned = true → sent.accepted = message
  part : sent.returned = false →
    sent.accepted <+: message ∧ sent.accepted ≠ message ∧ ∃ answer ∈ answers, answer.Refuses
  left : sent.left <:+ answers

/-- One answer more. -/
theorem Delivers.take {buffer : List UInt8} {answers : List SendAnswer} {sent : Sent} (count : Nat)
    (delivers : Delivers (buffer.drop count) answers sent) (answer : SendAnswer) :
    Delivers buffer (answer :: answers)
      { sent with accepted := buffer.take count ++ sent.accepted } where
  whole returned := by
    change buffer.take count ++ sent.accepted = buffer
    rw [delivers.whole returned, List.take_append_drop]
  part failed := by
    obtain ⟨initial, proper, refusal, member, refuses⟩ := delivers.part failed
    refine ⟨?_, fun same => proper ?_, refusal, List.mem_cons_of_mem _ member, refuses⟩
    · conv_rhs => rw [← List.take_append_drop count buffer]
      exact (List.prefix_append_right_inj _).mpr initial
    · apply (List.append_right_inj (buffer.take count)).mp
      rwa [List.take_append_drop]
  left := delivers.left.trans (List.suffix_cons _ _)

/-- `send_all` sends its buffer, or a part of it up to a refusal. -/
theorem delivers_sendAll {buffer : List UInt8} {answers : List SendAnswer} {sent : Sent}
    (ran : sendAll buffer answers = some sent) : Delivers buffer answers sent := by
  induction answers generalizing buffer sent with
  | nil =>
      rw [sendAll] at ran
      split at ran
      · next empty =>
          cases ran
          exact ⟨fun _ => empty.symm, nofun, List.suffix_refl _⟩
      · cases ran
  | cons answer answers ih =>
      rw [sendAll.eq_def] at ran
      split at ran
      · next empty =>
          cases ran
          exact ⟨fun _ => empty.symm, nofun, List.suffix_refl _⟩
      · next nonempty =>
          have refused : ∀ answer : SendAnswer, answer.Refuses → Delivers buffer (answer :: answers)
              { returned := false, accepted := [], left := answers } :=
            fun answer refuses => ⟨nofun, fun _ => ⟨List.nil_prefix, Ne.symm nonempty, answer,
              List.mem_cons_self, refuses⟩, List.suffix_cons _ _⟩
          cases answer with
          | interrupted =>
              have delivers := (ih ran).take 0 .interrupted
              exact delivers
          | failed =>
              cases ran
              exact refused .failed trivial
          | accepted count =>
              dsimp only at ran
              split at ran
              · next nothing =>
                  cases ran
                  exact refused (.accepted count) nothing
              · obtain ⟨rest, others, rfl⟩ := Option.map_eq_some_iff.mp ran
                exact (ih others).take count (.accepted count)

/-- The next part of the message. -/
theorem Delivers.next {message buffer : List UInt8} {answers : List SendAnswer} {sent next : Sent}
    (delivers : Delivers message answers sent) (ran : sent.next buffer = some next) :
    Delivers (message ++ buffer) answers next := by
  unfold Sent.next at ran
  split at ran
  · next returned =>
      obtain ⟨after, sending, rfl⟩ := Option.map_eq_some_iff.mp ran
      have further := delivers_sendAll sending
      have before := delivers.whole returned
      refine ⟨fun done => ?_, fun failed => ?_, further.left.trans delivers.left⟩
      · change sent.accepted ++ after.accepted = _
        rw [before, further.whole done]
      · obtain ⟨initial, proper, refusal, member, refuses⟩ := further.part failed
        change sent.accepted ++ after.accepted <+: _ ∧ sent.accepted ++ after.accepted ≠ _ ∧ _
        rw [before]
        exact ⟨(List.prefix_append_right_inj _).mpr initial,
          fun same => proper (List.append_cancel_left same), refusal,
          delivers.left.subset member, refuses⟩
  · next failed =>
      cases ran
      obtain ⟨initial, proper, refused⟩ := delivers.part (eq_false_of_ne_true failed)
      refine ⟨fun done => absurd done failed, fun _ => ⟨initial.trans (List.prefix_append _ _),
        fun same => ?_, refused⟩, delivers.left⟩
      have long := congrArg List.length same
      have short := initial.length_le
      rw [List.length_append] at long
      exact proper (initial.eq_of_length (by omega))

/-- The answers that `send_all` need not ask again after: all but the interruptions. -/
def SendAnswer.settles : SendAnswer → Bool
  | .interrupted => false
  | _ => true

/-- No more answers are used up than there are bytes to send. -/
theorem sendAll_answered {buffer : List UInt8} {answers : List SendAnswer}
    (enough : buffer.length ≤ answers.countP SendAnswer.settles) :
    ∃ sent, sendAll buffer answers = some sent ∧
      answers.countP SendAnswer.settles ≤
        sent.left.countP SendAnswer.settles + buffer.length := by
  induction answers generalizing buffer with
  | nil =>
      have empty : buffer = [] := List.eq_nil_of_length_eq_zero (Nat.le_zero.mp enough)
      rw [sendAll, if_pos empty]
      exact ⟨_, rfl, Nat.zero_le _⟩
  | cons answer answers ih =>
      by_cases empty : buffer = []
      · rw [sendAll.eq_def, if_pos empty]
        exact ⟨_, rfl, Nat.le_add_right _ _⟩
      · have some_byte := List.length_pos_iff.mpr empty
        rw [List.countP_cons] at enough ⊢
        rw [sendAll.eq_def, if_neg empty]
        cases answer with
        | interrupted => exact ih enough
        | failed =>
            refine ⟨_, rfl, ?_⟩
            simp only [SendAnswer.settles, if_true]
            omega
        | accepted count =>
            simp only [SendAnswer.settles, if_true] at enough ⊢
            split
            · exact ⟨_, rfl, by simp only []; omega⟩
            · next progress =>
                have rest := @List.length_drop _ count buffer
                obtain ⟨sent, ran, spent⟩ := @ih (buffer.drop count) (by omega)
                rw [ran]
                exact ⟨_, rfl, by simp only []; omega⟩

/-- So it is for the next part of the message. -/
theorem Sent.next_answered {sent : Sent} {buffer : List UInt8}
    (enough : buffer.length ≤ sent.left.countP SendAnswer.settles) :
    ∃ next, sent.next buffer = some next ∧
      sent.left.countP SendAnswer.settles ≤
        next.left.countP SendAnswer.settles + buffer.length := by
  unfold Sent.next
  split
  · obtain ⟨after, ran, spent⟩ := sendAll_answered enough
    rw [ran]
    exact ⟨_, rfl, spent⟩
  · exact ⟨sent, rfl, Nat.le_add_right _ _⟩

/-- The line with the worker thread, if there is one. -/
def threadLines (workerThreadId : UInt64) : List (List UInt8) :=
  if workerThreadId ≠ 0 then [ascii "X-Worker-Thread-Id: " ++ decimal workerThreadId.toNat] else []

/-- The lines of the header. -/
def responseLines (statusCode : Int32) (workerThreadId : UInt64) (responseBodyLen : Nat) :
    List (List UInt8) :=
  [ascii "HTTP/1.1 " ++ formatInt statusCode.toInt ++ ascii " " ++ reasonOf statusCode,
    ascii "Content-Type: application/json"] ++ threadLines workerThreadId ++
      [ascii "Content-Length: " ++ decimal responseBodyLen, ascii "Connection: close"]

/-- A `size_t` has twenty digits at most. -/
theorem length_decimal_word {n : Nat} (word : n ≤ sizeMax) : (decimal n).length ≤ 20 := by
  apply length_decimal_le (by decide)
  simp only [sizeMax] at word
  omega

/-- The buffer for the worker thread is large enough. -/
theorem threadHeader_eq (workerThreadId : UInt64) :
    threadHeader workerThreadId = some (linesText (threadLines workerThreadId)) := by
  have word : workerThreadId.toNat ≤ sizeMax := Nat.le_of_lt_succ workerThreadId.toNat_lt
  have digits := length_decimal_word word
  unfold threadHeader threadLines
  split
  · rw [if_neg, threadText, linesText, List.flatMap_singleton]
    have label : (ascii "X-Worker-Thread-Id: ").length = 20 := rfl
    have ended : crlf.length = 2 := rfl
    rw [threadText, List.length_append, List.length_append, label, ended]
    omega
  · rfl

/-- The line with the worker thread is short. -/
theorem length_threadLines_le (workerThreadId : UInt64) :
    (linesText (threadLines workerThreadId)).length ≤ 95 := by
  have returned := threadHeader_eq workerThreadId
  unfold threadHeader at returned
  split at returned
  · split at returned
    · cases returned
    · rw [← Option.some.inj returned]
      omega
  · rw [← Option.some.inj returned]
    exact Nat.zero_le _

/-- An `int` has ten digits and a sign at most. -/
theorem length_formatInt_le_eleven (value : Int32) : (formatInt value.toInt).length ≤ 11 := by
  have upper := value.toInt_lt
  have lower := value.le_toInt
  have digits : (decimal value.toInt.natAbs).length ≤ 10 :=
    length_decimal_le (by decide) (by omega)
  unfold formatInt
  split
  · rw [List.length_cons]
    omega
  · omega

/-- The buffer for the header is large enough, too. -/
theorem length_responseHeader_lt (statusCode : Int32) (workerThreadId : UInt64) {length : Nat}
    (word : length ≤ sizeMax) :
    (responseHeader statusCode (linesText (threadLines workerThreadId)) length).length < 512 := by
  have status := length_formatInt_le_eleven statusCode
  have thread := length_threadLines_le workerThreadId
  have digits := length_decimal_word word
  have reason : (reasonOf statusCode).length ≤ 21 := by
    unfold reasonOf
    split_ifs <;> decide
  simp only [responseHeader, List.length_append]
  have labels : (ascii "HTTP/1.1 ").length = 9 ∧ (ascii " ").length = 1 ∧ crlf.length = 2 ∧
      (ascii "Content-Type: application/json").length = 30 ∧
      (ascii "Content-Length: ").length = 16 ∧ (ascii "Connection: close").length = 17 := by decide
  omega

theorem responseHeader_eq (statusCode : Int32) (workerThreadId : UInt64) (length : Nat) :
    responseHeader statusCode (linesText (threadLines workerThreadId)) length =
      linesText (responseLines statusCode workerThreadId length) ++ crlf := by
  simp only [responseHeader, responseLines, linesText, List.flatMap_append, List.flatMap_cons,
    List.flatMap_nil, List.append_assoc, List.nil_append]

/-- A line of printable bytes is plain. -/
theorem plainLine_of_printable {line : List UInt8} (nonempty : line ≠ [])
    (printable : ∀ byte ∈ line, 32 ≤ byte) : PlainLine line where
  nonempty := nonempty
  noNul member := absurd (printable 0 member) (by decide)
  noReturn member := absurd (printable carriageReturn member) (by decide)
  noFeed member := absurd (printable lineFeed member) (by decide)

/-- Digits are printable. -/
theorem printable_decimal (n : Nat) : ∀ byte ∈ decimal n, 32 ≤ byte := by
  intro byte member
  have digit := isDigit_of_mem_decimal n byte member
  grind [isDigit]

/-- So is a number with its sign. -/
theorem printable_formatInt (value : Int) : ∀ byte ∈ formatInt value, 32 ≤ byte := by
  unfold formatInt
  split
  · exact List.forall_mem_cons.mpr ⟨by decide, printable_decimal _⟩
  · exact printable_decimal _

/-- The lines of the header end where they seem to. -/
theorem plain_responseLines (statusCode : Int32) (workerThreadId : UInt64) (length : Nat) :
    ∀ line ∈ responseLines statusCode workerThreadId length, PlainLine line := by
  have reason : ∀ byte ∈ reasonOf statusCode, 32 ≤ byte := by
    unfold reasonOf
    split_ifs <;> decide +kernel
  have labelled : ∀ (label : List UInt8) (n : Nat), label ≠ [] → (∀ byte ∈ label, 32 ≤ byte) →
      PlainLine (label ++ decimal n) := by
    intro label n nonempty printable
    refine plainLine_of_printable (List.append_ne_nil_of_left_ne_nil nonempty _) ?_
    exact List.forall_mem_append.mpr ⟨printable, printable_decimal n⟩
  have thread : ∀ line ∈ threadLines workerThreadId, PlainLine line := by
    unfold threadLines
    split
    · exact List.forall_mem_singleton.mpr (labelled _ _ (by decide) (by decide +kernel))
    · exact List.forall_mem_nil _
  have status : PlainLine (ascii "HTTP/1.1 " ++ formatInt statusCode.toInt ++ ascii " " ++
      reasonOf statusCode) := by
    refine plainLine_of_printable (List.append_ne_nil_of_left_ne_nil
      (List.append_ne_nil_of_right_ne_nil _ (by decide)) _) ?_
    simp only [List.forall_mem_append]
    exact ⟨⟨⟨by decide +kernel, printable_formatInt _⟩, by decide +kernel⟩, reason⟩
  have fixed : PlainLine (ascii "Content-Type: application/json") ∧
      PlainLine (ascii "Connection: close") :=
    ⟨plainLine_of_printable (by decide) (by decide +kernel),
      plainLine_of_printable (by decide) (by decide +kernel)⟩
  have length := labelled (ascii "Content-Length: ") length (by decide) (by decide +kernel)
  simp only [responseLines, List.forall_mem_append, List.forall_mem_cons]
  exact ⟨⟨⟨status, fixed.1, List.forall_mem_nil _⟩, thread⟩, length, fixed.2,
    List.forall_mem_nil _⟩

theorem toLower_of_namesLength {lead : UInt8} {others : List UInt8}
    (named : NamesLength (lead :: others)) : toLower lead = 99 := by
  rw [NamesLength, strncasecmpEq, strcasecmpEq, beq_iff_eq] at named
  exact (List.cons.inj named).1

/-- One line announces the length. -/
theorem declared_responseLines (statusCode : Int32) (workerThreadId : UInt64) (length : Nat) :
    DeclaredLength (responseLines statusCode workerThreadId length) length := by
  have thread : ∀ line ∈ threadLines workerThreadId, ¬ NamesLength line := by
    unfold threadLines
    split
    · refine List.forall_mem_singleton.mpr fun named => ?_
      exact absurd (toLower_of_namesLength named) (by decide)
    · exact List.forall_mem_nil _
  refine .once ⟨ascii "Content-Length:", ascii " ", decimal length, [], ?_, by decide,
    by decide +kernel, List.forall_mem_nil _, decimal_ne_nil length, isDigit_of_mem_decimal length,
    numeralValue_decimal length⟩ ?_
  · rw [List.append_nil, ← List.append_assoc]
    rfl
  · simp only [List.forall_mem_append, List.forall_mem_cons]
    refine ⟨⟨⟨fun named => ?_, by decide, List.forall_mem_nil _⟩, thread⟩, by decide,
      List.forall_mem_nil _⟩
    exact absurd (toLower_of_namesLength named) (by decide)

/-- What is sent behind the header: the body ends in a line feed. -/
def payload (jsonBody : CString) : List UInt8 :=
  if jsonBody.bytes.getLast? = some lineFeed then jsonBody.bytes else jsonBody.bytes ++ [lineFeed]

/-- The whole message. -/
def response (statusCode : Int32) (workerThreadId : UInt64) (jsonBody : CString) : List UInt8 :=
  linesText (responseLines statusCode workerThreadId (payload jsonBody).length) ++
    (crlf ++ payload jsonBody)

/-- The payload is the body and the line feed that it may lack. -/
theorem payload_eq (jsonBody : CString) :
    payload jsonBody = jsonBody.bytes ++ if needsNewline jsonBody then [lineFeed] else [] := by
  unfold payload needsNewline
  by_cases ended : jsonBody.bytes.getLast? = some lineFeed
  · rw [if_pos ended, ended, bne_self_eq_false, if_neg Bool.false_ne_true, List.append_nil]
  · rw [if_neg ended, if_pos (bne_iff_ne.mpr ended)]

/-- The sum does not wrap. -/
theorem responseBodyLen_eq {jsonBody : CString} (fits : jsonBody.bytes.length < sizeMax) :
    responseBodyLen jsonBody = (payload jsonBody).length := by
  rw [payload_eq, List.length_append, responseBodyLen]
  cases needsNewline jsonBody
  all_goals exact Nat.mod_eq_of_lt (by simp; omega)

/-- The first blank line is the one behind the header. -/
theorem strstr_blankLine_response (statusCode : Int32) (workerThreadId : UInt64)
    (jsonBody : CString) :
    ∃ headersEnd, strstr blankLine (response statusCode workerThreadId jsonBody) =
        some headersEnd ∧
      (response statusCode workerThreadId jsonBody).drop (headersEnd + 4) = payload jsonBody := by
  have plain := plain_responseLines statusCode workerThreadId (payload jsonBody).length
  have located := strstr_blankLine_lines plain (payload jsonBody)
  refine ⟨_, located, ?_⟩
  have long : 2 ≤ (linesText (responseLines statusCode workerThreadId
      (payload jsonBody).length)).length := by
    change 2 ≤ (linesText (_ :: _)).length
    rw [length_linesText_cons]
    omega
  change (_ ++ (crlf ++ _)).drop (_ - 2 + 4) = _
  rw [← List.append_assoc, List.drop_left']
  rw [List.length_append, show crlf.length = 2 from rfl]
  change _ = (linesText (responseLines statusCode workerThreadId _)).length - 2 + 4
  omega

/-- The message is the header, the body and the line feed that the body may lack. -/
theorem response_eq (statusCode : Int32) (workerThreadId : UInt64) (jsonBody : CString) :
    response statusCode workerThreadId jsonBody =
      responseHeader statusCode (linesText (threadLines workerThreadId))
        (payload jsonBody).length ++
          jsonBody.bytes ++ if needsNewline jsonBody then [lineFeed] else [] := by
  rw [responseHeader_eq, List.append_assoc, ← payload_eq, List.append_assoc, response]

/-- The function sends the three parts of the message, and nothing keeps it from starting. -/
theorem httpSendJsonWithThread_eq {jsonBody : CString} (fits : jsonBody.bytes.length < sizeMax)
    (statusCode : Int32) (workerThreadId : UInt64) (answers : List SendAnswer) :
    httpSendJsonWithThread statusCode jsonBody workerThreadId answers =
      (sendAll (responseHeader statusCode (linesText (threadLines workerThreadId))
        (payload jsonBody).length) answers).bind fun sent =>
          (sent.next jsonBody.bytes).bind fun sent =>
            if needsNewline jsonBody then sent.next [lineFeed] else some sent := by
  have bodyLen := responseBodyLen_eq fits
  have word : (payload jsonBody).length ≤ sizeMax := by
    rw [← bodyLen]
    exact Nat.le_of_lt_succ (Nat.mod_lt _ (Nat.succ_pos _))
  have room := length_responseHeader_lt statusCode workerThreadId word
  simp only [httpSendJsonWithThread, threadHeader_eq, bodyLen, Nat.not_le_of_lt room,
    if_false, Option.bind_eq_bind]

/-- What a call that has come to its end has sent. -/
theorem delivers_httpSendJsonWithThread {statusCode : Int32} {jsonBody : CString}
    {workerThreadId : UInt64} {answers : List SendAnswer} {sent : Sent}
    (fits : jsonBody.bytes.length < sizeMax)
    (ran : httpSendJsonWithThread statusCode jsonBody workerThreadId answers = some sent) :
    Delivers (response statusCode workerThreadId jsonBody) answers sent := by
  rw [httpSendJsonWithThread_eq fits] at ran
  obtain ⟨first, header, ran⟩ := Option.bind_eq_some_iff.mp ran
  obtain ⟨second, body, ran⟩ := Option.bind_eq_some_iff.mp ran
  have both := (delivers_sendAll header).next body
  rw [response_eq]
  split at ran
  · next needed =>
      rw [if_pos needed]
      exact both.next ran
  · next ended =>
      rw [if_neg ended, List.append_nil, ← Option.some.inj ran]
      exact both

/-- As many answers as the message has bytes, interruptions apart, bring the call to its end;
it returns 1 when none of them refuses. -/
theorem httpSendJsonWithThread_returns {jsonBody : CString} {answers : List SendAnswer}
    (fits : jsonBody.bytes.length < sizeMax) (statusCode : Int32) (workerThreadId : UInt64)
    (enough : (response statusCode workerThreadId jsonBody).length ≤
      answers.countP SendAnswer.settles) :
    ∃ sent, httpSendJsonWithThread statusCode jsonBody workerThreadId answers = some sent ∧
      ((∀ answer ∈ answers, ¬ answer.Refuses) → sent.returned = true) := by
  have returns : ∃ sent,
      httpSendJsonWithThread statusCode jsonBody workerThreadId answers = some sent := by
    rw [httpSendJsonWithThread_eq fits]
    rw [response_eq, List.length_append, List.length_append] at enough
    obtain ⟨first, header, spent⟩ := sendAll_answered
      (Nat.le_trans (Nat.le_add_right _ _) (Nat.le_trans (Nat.le_add_right _ _) enough))
    obtain ⟨second, body, spentBody⟩ :=
      @Sent.next_answered first jsonBody.bytes (by omega)
    rw [header, Option.bind_some, body, Option.bind_some]
    split
    · next needed =>
        rw [if_pos needed] at enough
        have answered : [lineFeed].length ≤ second.left.countP SendAnswer.settles := by
          rw [List.length_singleton] at enough ⊢
          omega
        obtain ⟨third, newline, -⟩ := Sent.next_answered answered
        exact ⟨third, newline⟩
    · exact ⟨second, rfl⟩
  obtain ⟨sent, ran⟩ := returns
  refine ⟨sent, ran, fun willing => ?_⟩
  by_contra failed
  obtain ⟨-, -, answer, member, refuses⟩ :=
    (delivers_httpSendJsonWithThread fits ran).part (eq_false_of_ne_true failed)
  exact willing answer member refuses

/-- Whatever `send` answers, a call that returns 1 has sent a header of whole lines that
announces the length of the body once, and the body with its line feed; one that returns 0 has
sent a proper prefix of this after a refusal of `send`, never because a buffer was too small. -/
theorem httpSendJsonWithThread_framed (statusCode : Int32) (jsonBody : CString)
    (workerThreadId : UInt64) (answers : List SendAnswer) (sent : Sent)
    (fits : jsonBody.bytes.length < sizeMax)
    (ran : httpSendJsonWithThread statusCode jsonBody workerThreadId answers = some sent) :
    let lines := responseLines statusCode workerThreadId (payload jsonBody).length
    let message := linesText lines ++ (crlf ++ payload jsonBody)
    (∀ line ∈ lines, PlainLine line) ∧ DeclaredLength lines (payload jsonBody).length ∧
      (∃ headersEnd, strstr blankLine message = some headersEnd ∧
        message.drop (headersEnd + 4) = payload jsonBody) ∧
      (sent.returned = true → sent.accepted = message) ∧
      (sent.returned = false → sent.accepted <+: message ∧ sent.accepted ≠ message ∧
        ∃ answer ∈ answers, answer.Refuses) ∧
      ∃ thread, threadHeader workerThreadId = some thread ∧
        (responseHeader statusCode thread (responseBodyLen jsonBody)).length < 512 := by
  have delivers := delivers_httpSendJsonWithThread fits ran
  have bodyLen := responseBodyLen_eq fits
  refine ⟨plain_responseLines _ _ _, declared_responseLines _ _ _,
    strstr_blankLine_response statusCode workerThreadId jsonBody, delivers.whole, delivers.part,
    _, threadHeader_eq workerThreadId, ?_⟩
  apply length_responseHeader_lt
  exact Nat.le_of_lt_succ (Nat.mod_lt _ (Nat.succ_pos _))

/-- A body without a line feed at its end, which goes out in pieces: once to its end, and once
until `send` fails with the line feed still to be sent. -/
theorem httpSendJsonWithThread_framed_pieces :
    let body : CString := ⟨ascii "[]", by decide⟩
    let willing : List SendAnswer :=
      [.accepted 100, .interrupted, .accepted 12, .interrupted, .accepted 1, .accepted 1,
        .accepted 1]
    let failing : List SendAnswer :=
      [.accepted 100, .interrupted, .accepted 12, .accepted 1, .accepted 1, .failed]
    (∃ sent, httpSendJsonWithThread 200 body 7 willing = some sent ∧ sent.returned = true ∧
      sent.accepted = response 200 7 body) ∧
    ∃ sent, httpSendJsonWithThread 200 body 7 failing = some sent ∧ sent.returned = false ∧
      sent.accepted <+: response 200 7 body ∧ sent.accepted ≠ response 200 7 body := by
  have framed := fun answers sent => httpSendJsonWithThread_framed 200
    ⟨ascii "[]", by decide⟩ 7 answers sent (by decide +kernel)
  have whole := framed [.accepted 100, .interrupted, .accepted 12, .interrupted, .accepted 1,
    .accepted 1, .accepted 1] _ rfl
  have part := framed [.accepted 100, .interrupted, .accepted 12, .accepted 1, .accepted 1,
    .failed] _ rfl
  exact ⟨⟨_, rfl, rfl, whole.2.2.2.1 rfl⟩, _, rfl, rfl, (part.2.2.2.2.1 rfl).1,
    (part.2.2.2.2.1 rfl).2.1⟩

end MiniDbms.Http
