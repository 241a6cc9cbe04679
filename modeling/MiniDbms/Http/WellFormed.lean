import MiniDbms.Http.Segmentation

/-! # Well-formed requests are read back

`MiniDbms.Http.WireRequest` is a request as a client writes it: its lines, and the
body whose length they declare. However the network cuts it, and whatever follows it,
`http_read_request` returns the method, the path and the body that were written
(`MiniDbms.Http.httpReadRequest_wireRequest`).
-/

namespace MiniDbms.Http

open Foundation

/-- The lines, each with its line end. -/
def linesText (lines : List (List UInt8)) : List UInt8 := lines.flatMap (· ++ crlf)

/-- A line with something in it, and no line end of its own. -/
structure PlainLine (line : List UInt8) : Prop where
  nonempty : line ≠ []
  noNul : 0 ∉ line
  noReturn : carriageReturn ∉ line
  noFeed : lineFeed ∉ line

theorem linesText_cons (line : List UInt8) (lines : List (List UInt8)) (tail : List UInt8) :
    linesText (line :: lines) ++ tail = line ++ (crlf ++ (linesText lines ++ tail)) := by
  simp only [linesText, List.flatMap_cons, List.append_assoc]

theorem length_linesText_cons (line : List UInt8) (lines : List (List UInt8)) :
    (linesText (line :: lines)).length = line.length + 2 + (linesText lines).length := by
  simp only [linesText, List.flatMap_cons, List.length_append]
  rfl

/-- A plain line ends at the first line end. -/
theorem strstr_crlf_line {line : List UInt8} (plain : PlainLine line) (tail : List UInt8) :
    strstr crlf (line ++ (crlf ++ tail)) = some line.length := by
  have here : strstr crlf (crlf ++ tail) = some 0 := by
    simp only [crlf, List.cons_append, List.nil_append, strstr, List.isPrefixOf, beq_self_eq_true,
      Bool.and_self, ↓reduceIte]
  rw [crlf, strstr_skip plain.noReturn, ← crlf, here, Option.map_some, Nat.zero_add]

/-- The blank line behind some lines is the first one. -/
theorem strstr_blankLine_lines {line : List UInt8} {lines : List (List UInt8)}
    (plain : ∀ line' ∈ line :: lines, PlainLine line') (tail : List UInt8) :
    strstr blankLine (linesText (line :: lines) ++ (crlf ++ tail)) =
      some ((linesText (line :: lines)).length - 2) := by
  induction lines generalizing line with
  | nil =>
      have here : strstr blankLine (crlf ++ (crlf ++ tail)) = some 0 := by
        simp only [blankLine, crlf, List.cons_append, List.nil_append, strstr, List.isPrefixOf,
          beq_self_eq_true, Bool.and_self, ↓reduceIte]
      rw [linesText_cons, length_linesText_cons]
      change strstr blankLine (line ++ (crlf ++ (crlf ++ tail))) = some (line.length + 2 + 0 - 2)
      rw [show blankLine = carriageReturn :: [lineFeed, carriageReturn, lineFeed] from rfl,
        strstr_skip (plain line List.mem_cons_self).noReturn]
      change (strstr blankLine _).map _ = _
      rw [here]
      simp only [Option.map_some, Nat.zero_add, Nat.add_zero, Nat.add_sub_cancel]
  | cons next lines ih =>
      have later := ih fun line' member => plain line' (List.mem_cons_of_mem _ member)
      have nextPlain := plain next (List.mem_cons_of_mem _ List.mem_cons_self)
      have long : 2 ≤ (linesText (next :: lines)).length := by
        rw [length_linesText_cons]
        omega
      -- The line after this one is not empty, so its line end is not a blank line.
      have past : strstr blankLine (crlf ++ (linesText (next :: lines) ++ (crlf ++ tail))) =
          (strstr blankLine (linesText (next :: lines) ++ (crlf ++ tail))).map (· + 2) := by
        obtain ⟨lead, others, rfl⟩ := List.exists_cons_of_ne_nil nextPlain.nonempty
        have different : carriageReturn ≠ lead := fun same =>
          nextPlain.noReturn (same ▸ List.mem_cons_self)
        rw [linesText_cons]
        simp only [crlf, blankLine, List.cons_append, List.nil_append]
        rw [strstr, if_neg, strstr, if_neg, Option.map_map]
        · rfl
        · simp only [List.isPrefixOf, Bool.and_eq_true, beq_iff_eq, not_and]
          intro same
          cases same
        · simp only [List.isPrefixOf, Bool.and_eq_true, beq_iff_eq, not_and]
          exact fun _ _ same => absurd same different
      rw [linesText_cons, length_linesText_cons line]
      rw [show blankLine = carriageReturn :: [lineFeed, carriageReturn, lineFeed] from rfl,
        strstr_skip (plain line List.mem_cons_self).noReturn]
      change (strstr blankLine _).map _ = _
      rw [past, later, Option.map_some, Option.map_some]
      congr 1
      omega

/-- Plain lines have no NUL. -/
theorem nul_not_mem_linesText {lines : List (List UInt8)}
    (plain : ∀ line ∈ lines, PlainLine line) : 0 ∉ linesText lines := by
  intro member
  obtain ⟨line, present, inside⟩ := List.mem_flatMap.mp member
  rcases List.mem_append.mp inside with inLine | inEnd
  · exact (plain line present).noNul inLine
  · exact absurd inEnd (by decide)

/-- The line begins with the name of the header. -/
def NamesLength (line : List UInt8) : Prop :=
  strncasecmpEq line (ascii "Content-Length:") = true

instance decidableNamesLength (line : List UInt8) : Decidable (NamesLength line) :=
  inferInstanceAs (Decidable (_ = true))

/-- The line is `Content-Length:` in any letter case, with this number behind it. -/
def LengthLine (line : List UInt8) (contentLength : Nat) : Prop :=
  ∃ name blanks digits trailing, line = name ++ (blanks ++ (digits ++ trailing)) ∧
    strcasecmpEq name (ascii "Content-Length:") = true ∧
    (∀ byte ∈ blanks, isSpace byte = true) ∧ (∀ byte ∈ trailing, isSpace byte = true) ∧
    digits ≠ [] ∧ (∀ byte ∈ digits, isDigit byte = true) ∧ numeralValue digits = contentLength

/-- At most one header line names the length of the body; the body is empty if none
does. -/
inductive DeclaredLength : List (List UInt8) → Nat → Prop where
  | absent {headers} (unnamed : ∀ line ∈ headers, ¬ NamesLength line) : DeclaredLength headers 0
  | once {before line after contentLength} (named : LengthLine line contentLength)
      (unnamed : ∀ other ∈ before ++ after, ¬ NamesLength other) :
      DeclaredLength (before ++ line :: after) contentLength

theorem length_of_strcasecmpEq {left right : List UInt8} (same : strcasecmpEq left right = true) :
    left.length = right.length := by
  simpa only [List.length_map] using congrArg List.length (beq_iff_eq.mp same)

/-- The test that the loop makes on a line is whether it names the length. -/
theorem namesLength_iff {line : List UInt8} (tail : List UInt8) :
    (15 ≤ line.length && strncasecmpEq (line ++ tail) (ascii "Content-Length:")) = true ↔
      NamesLength line := by
  rw [Bool.and_eq_true, decide_eq_true_eq]
  constructor
  · rintro ⟨long, same⟩
    rwa [strncasecmpEq_append (by exact long)] at same
  · intro named
    have long : 15 ≤ line.length := by
      have lengths := length_of_strcasecmpEq named
      have fifteen : (ascii "Content-Length:").length = 15 := rfl
      rw [List.length_take] at lengths
      omega
    exact ⟨long, by rwa [strncasecmpEq_append (by exact long)]⟩

/-- One round of the loop over plain lines. -/
theorem contentLengthValue_line {line : List UInt8} (plain : PlainLine line)
    (lines : List (List UInt8)) (tail : List UInt8) :
    contentLengthValue (linesText (line :: lines) ++ tail)
        ((linesText (line :: lines)).length - 2) =
      if NamesLength line then some ((linesText (line :: lines) ++ tail).drop 15)
      else contentLengthValue (linesText lines ++ tail) ((linesText lines).length - 2) := by
  have positive := List.length_pos_of_ne_nil plain.nonempty
  rw [length_linesText_cons, linesText_cons, contentLengthValue_round (by omega) (by omega)
    (strstr_crlf_line plain _), if_neg positive.ne']
  simp only [namesLength_iff]
  congr 2
  · rw [← List.append_assoc, List.drop_left' (by rw [List.length_append]; rfl)]
  · omega

/-- Among lines that do not name the length, the loop finds nothing. -/
theorem contentLengthValue_unnamed {lines : List (List UInt8)}
    (plain : ∀ line ∈ lines, PlainLine line) (unnamed : ∀ line ∈ lines, ¬ NamesLength line)
    (tail : List UInt8) :
    contentLengthValue (linesText lines ++ tail) ((linesText lines).length - 2) = none := by
  induction lines with
  | nil =>
      rw [contentLengthValue]
      rfl
  | cons line lines ih =>
      rw [contentLengthValue_line (plain line List.mem_cons_self),
        if_neg (unnamed line List.mem_cons_self)]
      exact ih (fun line' member => plain line' (List.mem_cons_of_mem _ member))
        fun line' member => unnamed line' (List.mem_cons_of_mem _ member)

/-- Behind lines that do not name the length, the loop finds the line that does. -/
theorem contentLengthValue_named {before : List (List UInt8)} {line : List UInt8}
    {after : List (List UInt8)} (plain : ∀ line' ∈ before ++ line :: after, PlainLine line')
    (unnamed : ∀ line' ∈ before, ¬ NamesLength line') (named : NamesLength line)
    (tail : List UInt8) :
    contentLengthValue (linesText (before ++ line :: after) ++ tail)
        ((linesText (before ++ line :: after)).length - 2) =
      some ((linesText (line :: after) ++ tail).drop 15) := by
  induction before with
  | nil =>
      rw [List.nil_append, contentLengthValue_line (plain line List.mem_cons_self), if_pos named]
  | cons first before ih =>
      rw [List.cons_append, contentLengthValue_line (plain first List.mem_cons_self),
        if_neg (unnamed first List.mem_cons_self)]
      exact ih (fun line' member => plain line' (List.mem_cons_of_mem _ member))
        fun line' member => unnamed line' (List.mem_cons_of_mem _ member)

/-- A line with the length names it. -/
theorem namesLength_of_lengthLine {line : List UInt8} {contentLength : Nat}
    (named : LengthLine line contentLength) : NamesLength line := by
  obtain ⟨name, blanks, digits, trailing, rfl, same, _⟩ := named
  have fifteen : (ascii "Content-Length:").length = name.length :=
    (length_of_strcasecmpEq same).symm
  rw [NamesLength, strncasecmpEq, fifteen, List.take_left]
  exact same

/-- The number on the line is read. -/
theorem strtoul_lengthLine {line : List UInt8} {contentLength : Nat}
    (named : LengthLine line contentLength) (small : contentLength ≤ httpMaxBody)
    (lines : List (List UInt8)) (tail : List UInt8) :
    lengthOf (some ((linesText (line :: lines) ++ tail).drop 15)) = some contentLength := by
  obtain ⟨name, blanks, digits, trailing, rfl, same, blank, trails, nonempty, all, rfl⟩ := named
  have fifteen : name.length = 15 := length_of_strcasecmpEq same
  have stops : NoDigitFirst (trailing ++ (crlf ++ (linesText lines ++ tail))) := by
    intro byte first
    cases trailing with
    | nil =>
        obtain rfl : carriageReturn = byte := by simpa [crlf] using first
        rfl
    | cons lead others =>
        obtain rfl : lead = byte := by simpa using first
        by_contra digit
        have plain := (isDigit_plain (by simpa using digit)).1
        rw [trails lead List.mem_cons_self] at plain
        cases plain
  rw [linesText_cons, List.append_assoc, List.drop_left' fifteen, List.append_assoc,
    List.append_assoc, lengthOf, strtoul_digits blank nonempty all stops, Option.map_some,
    ulongOf_false, Nat.min_eq_left (small.trans (by decide))]

/-- The length that the header lines declare is read from them. -/
theorem lengthOf_declared {headers : List (List UInt8)} {contentLength : Nat}
    (plain : ∀ line ∈ headers, PlainLine line) (declared : DeclaredLength headers contentLength)
    (small : contentLength ≤ httpMaxBody) (tail : List UInt8) :
    lengthOf (contentLengthValue (linesText headers ++ tail) ((linesText headers).length - 2)) =
      some contentLength := by
  cases declared with
  | absent unnamed =>
      rw [contentLengthValue_unnamed plain unnamed]
      rfl
  | once named unnamed =>
      rw [contentLengthValue_named plain
        (fun line' member => unnamed line' (List.mem_append_left _ member))
        (namesLength_of_lengthLine named)]
      exact strtoul_lengthLine named small _ _

/-- A token of the request line. -/
structure Token (limit : Nat) where
  bytes : List UInt8
  nonempty : bytes ≠ []
  short : bytes.length ≤ limit
  noNul : 0 ∉ bytes
  noSpace : ∀ byte ∈ bytes, isSpace byte = false

/-- The token in a buffer. -/
def Token.toBoundedString {limit : Nat} (token : Token limit) : BoundedString limit where
  bytes := token.bytes
  noNul := token.noNul
  fits := token.short

/-- A well-formed request: a method, a path and a version, header lines of which at most
one declares the length of the body, and the body. -/
structure WireRequest where
  method : Token 7
  path : Token 127
  version : List UInt8
  headers : List (List UInt8)
  body : List UInt8
  version_plain : PlainLine version
  headers_plain : ∀ line ∈ headers, PlainLine line
  declared : DeclaredLength headers body.length
  body_fits : body.length ≤ httpMaxBody

/-- The number of bytes that the answers of `recv` offer, none with an interruption. -/
def offeredBytes : List (Option Nat) → Nat
  | [] => 0
  | none :: cuts => offeredBytes cuts
  | some extra :: cuts => extra + 1 + offeredBytes cuts

namespace WireRequest

/-- The request line. -/
def requestLine (request : WireRequest) : List UInt8 :=
  request.method.bytes ++ 32 :: (request.path.bytes ++ 32 :: request.version)

/-- The request line, the header lines and the blank line. -/
def head (request : WireRequest) : List UInt8 :=
  linesText (request.requestLine :: request.headers) ++ crlf

/-- The bytes that the client sends. -/
def text (request : WireRequest) : List UInt8 := request.head ++ request.body

/-- The request as `http_read_request` stores it. -/
def received (request : WireRequest) : HttpRequest where
  method := request.method.toBoundedString
  path := request.path.toBoundedString
  body := request.body
  bodyLen := request.body.length

variable (request : WireRequest)

/-- A token could be a line. -/
theorem plain_of_token {limit : Nat} (token : Token limit) : PlainLine token.bytes where
  nonempty := token.nonempty
  noNul := token.noNul
  noReturn := fun member => Bool.false_ne_true (token.noSpace _ member).symm
  noFeed := fun member => Bool.false_ne_true (token.noSpace _ member).symm

/-- The request line is plain. -/
theorem requestLine_plain : PlainLine request.requestLine := by
  have methodPlain := plain_of_token request.method
  have pathPlain := plain_of_token request.path
  have absent : ∀ byte : UInt8, byte ∉ request.method.bytes → byte ∉ request.path.bytes →
      byte ∉ request.version → byte ≠ 32 → byte ∉ request.requestLine := by
    intro byte notMethod notPath notVersion notSpace
    simp only [requestLine, List.mem_append, List.mem_cons, not_or]
    exact ⟨notMethod, notSpace, notPath, notSpace, notVersion⟩
  exact {
    nonempty := List.append_ne_nil_of_right_ne_nil _ (List.cons_ne_nil _ _)
    noNul := absent _ methodPlain.noNul pathPlain.noNul request.version_plain.noNul (by decide)
    noReturn := absent _ methodPlain.noReturn pathPlain.noReturn request.version_plain.noReturn
      (by decide)
    noFeed := absent _ methodPlain.noFeed pathPlain.noFeed request.version_plain.noFeed
      (by decide) }

/-- So are all lines. -/
theorem lines_plain : ∀ line ∈ request.requestLine :: request.headers, PlainLine line := by
  rintro line (_ | ⟨_, member⟩)
  · exact request.requestLine_plain
  · exact request.headers_plain line member

/-- The offset of the blank line. -/
def headersEnd : Nat := (linesText (request.requestLine :: request.headers)).length - 2

/-- The head is the headers and the blank line. -/
theorem length_head : request.head.length = request.headersEnd + 4 := by
  have long := length_linesText_cons request.requestLine request.headers
  rw [head, headersEnd, List.length_append, show crlf.length = 2 from rfl]
  omega

/-- The head is a header block. -/
theorem headerBlock : HeaderBlock request.head request.headersEnd where
  found := by
    have located := strstr_blankLine_lines request.lines_plain []
    rwa [List.append_nil] at located
  length := request.length_head

theorem nul_not_mem_head : 0 ∉ request.head := by
  rw [head, List.mem_append, not_or]
  exact ⟨nul_not_mem_linesText request.lines_plain, by decide⟩

/-- Both words are read, whatever follows the header block. -/
theorem scanRequestLine_head (more : List UInt8) :
    scanRequestLine (request.head ++ more) = some (request.method.bytes, request.path.bytes) := by
  have chars : ∀ {limit : Nat} (token : Token limit), ∀ byte ∈ token.bytes,
      isWordChar byte = true := fun token byte member => by
    rw [isWordChar, token.noSpace byte member]
    rfl
  rw [head, List.append_assoc, linesText_cons, requestLine, List.append_assoc, List.cons_append,
    List.append_assoc, List.cons_append]
  apply scanRequestLine_of_words
  · exact @scanWord_word 7 _ _ [] 32 (List.forall_mem_nil _)
      request.method.nonempty (chars request.method) request.method.short rfl
  · exact @scanWord_word 127 _ _ [32] 32 (List.forall_mem_singleton.mpr rfl)
      request.path.nonempty (chars request.path) request.path.short rfl

/-- The length that the header lines declare is read, whatever follows the header block. -/
theorem lengthOf_lengthText_head (more : List UInt8) :
    lengthOf (lengthText (request.head ++ more) request.headersEnd) = some request.body.length := by
  have behind : request.headersEnd - (request.requestLine.length + 2) =
      (linesText request.headers).length - 2 := by
    rw [headersEnd, length_linesText_cons]
    omega
  have afterFirst : (request.head ++ more).drop (request.requestLine.length + 2) =
      linesText request.headers ++ (crlf ++ more) := by
    rw [head, List.append_assoc, linesText_cons, ← List.append_assoc, List.drop_left']
    rw [List.length_append]
    rfl
  have found : strstr crlf (request.head ++ more) = some request.requestLine.length := by
    rw [head, List.append_assoc, linesText_cons]
    exact strstr_crlf_line request.requestLine_plain _
  rw [lengthText, found, Option.bind_some, afterFirst, behind]
  exact lengthOf_declared request.headers_plain request.declared request.body_fits _

variable {request} {more : List UInt8} {used : Nat}

/-- The header functions see the whole head. -/
theorem head_prefix_headText (fits : request.text.length ≤ httpMaxRequest)
    (more : List UInt8) : request.head <+: headText (request.text ++ more) := by
  have room : request.head.length ≤ httpMaxRequest :=
    (Nat.le_add_right _ _).trans (List.length_append ▸ fits)
  have noNul : ∀ byte ∈ request.head, (byte != 0) = true := by
    intro byte member
    rw [bne_iff_ne]
    rintro rfl
    exact request.nul_not_mem_head member
  rw [text, List.append_assoc]
  change request.head <+: ((request.head ++ (request.body ++ more)).take _).takeWhile (· != 0)
  rw [← List.take_takeWhile, List.takeWhile_append_of_pos noNul, List.take_append,
    List.take_of_length_le room]
  exact List.prefix_append _ _

/-- The end of the headers is found where the head ends. -/
theorem headersEndOf_text (fits : request.text.length ≤ httpMaxRequest) (more : List UInt8) :
    headersEndOf (request.text ++ more) = some request.headersEnd := by
  obtain ⟨behind, whole⟩ := head_prefix_headText fits more
  rw [headersEndOf, ← whole]
  exact strstr_append blankLine_ne_nil request.headerBlock.found behind

theorem headerText_text (fits : request.text.length ≤ httpMaxRequest) (more : List UInt8) :
    headerText (request.text ++ more) request.headersEnd = request.head := by
  obtain ⟨behind, whole⟩ := head_prefix_headText fits more
  rw [headerText, ← whole, ← request.length_head, List.take_left]

/-- The limits and the stream allow for the body. -/
theorem requestOf_text (fits : request.text.length ≤ httpMaxRequest) (more : List UInt8) :
    requestOf (request.text ++ more) request.headersEnd request.method.bytes request.path.bytes
      request.body.length = some request.received := by
  have total : request.headersEnd + 4 + request.body.length = request.text.length := by
    rw [text, List.length_append, request.length_head]
  have stored : ∀ {limit : Nat} (token : Token limit),
      (CString.ofBuffer token.bytes).truncate limit = token.toBoundedString := by
    intro limit token
    apply BoundedString.ext_bytes
    have kept : token.bytes.takeWhile (· != 0) = token.bytes := by
      rw [List.takeWhile_eq_self_iff]
      intro byte member
      rw [bne_iff_ne]
      rintro rfl
      exact token.noNul member
    change (token.bytes.takeWhile (· != 0)).take limit = token.bytes
    rw [kept, List.take_of_length_le token.short]
  have body : ((request.text ++ more).drop (request.headersEnd + 4)).take request.body.length =
      request.body := by
    rw [← request.length_head, text, List.append_assoc, List.drop_left, List.take_left]
  have sent : request.headersEnd + 4 + request.body.length ≤ (request.text ++ more).length := by
    rw [total, List.length_append]
    exact Nat.le_add_right _ _
  rw [requestOf, if_pos ⟨request.body_fits, total ▸ fits, sent⟩, body, stored, stored]
  rfl

/-- Wherever the end of the headers is found, the outcome is the request. -/
theorem outcomeAt_text (fits : request.text.length ≤ httpMaxRequest)
    (possible : Possible (request.text ++ more) request.headersEnd used) :
    outcomeAt (request.text ++ more) request.headersEnd used = .ok request.received := by
  have read : (outcomeAt (request.text ++ more) request.headersEnd used).toOption =
      some request.received := by
    rw [outcome_behind possible, take_headText possible.least, headerText_text fits,
      scanRequestLine_head, Option.bind_some, ← request.headerBlock.lengthText_append,
      lengthOf_lengthText_head, Option.bind_some, requestOf_text fits]
  cases outcome : outcomeAt (request.text ++ more) request.headersEnd used with
  | error message =>
      rw [outcome] at read
      cases read
  | ok result =>
      rw [outcome] at read
      cases read
      rfl

/-- As long as it waits, the function has not received the whole request, and asks for what is
missing. -/
theorem missing_of_waiting (fits : request.text.length ≤ httpMaxRequest) {client : Client}
    (consistent : Consistent (request.text ++ more) client)
    (waits : ∀ result, client.reading ≠ .returned result) :
    (request.text ++ more).length < client.left.length + request.text.length ∧
      client.left.length + request.text.length ≤
        (request.text ++ more).length + client.reading.requested := by
  have total : request.headersEnd + 4 + request.body.length = request.text.length := by
    rw [text, List.length_append, request.length_head]
  obtain ⟨reading, left⟩ := client
  cases reading with
  | returned result => exact absurd rfl (waits result)
  | headers received =>
      obtain ⟨all, room, notYet⟩ := consistent
      have before := notYet _ (headersEndOf_text fits more)
      rw [← all, List.length_append]
      change received.length + left.length < left.length + request.text.length ∧
        left.length + request.text.length ≤
          received.length + left.length + (httpMaxRequest - received.length)
      omega
  | body head received =>
      obtain ⟨headersEnd, used, possible, all, parsed, _, short⟩ := consistent
      obtain rfl := Option.some.inj ((headersEndOf_text fits more).symm.trans possible.found)
      have outcome := outcomeAt_text fits possible
      have needed : head.totalNeeded = request.text.length := by
        simp only [outcomeAt, parsed] at outcome
        split at outcome
        · cases outcome
        · have length := congrArg HttpRequest.bodyLen (Except.ok.inj outcome)
          have start := (headerLen_of_parseHead parsed).1
          change head.contentLength = request.body.length at length
          rw [RequestHead.totalNeeded, start, length, total]
      rw [← all, List.length_append]
      change received.length + left.length < left.length + request.text.length ∧
        left.length + request.text.length ≤
          received.length + left.length + (head.totalNeeded - received.length)
      omega

/-- As long as the function waits, it has received all that the answers offered. -/
theorem offered_le_of_waiting (fits : request.text.length ≤ httpMaxRequest) {client : Client}
    (consistent : Consistent (request.text ++ more) client) {cuts : List (Option Nat)}
    (waits : ∀ result, (clientMachine.run client cuts).2.reading ≠ .returned result) :
    (clientMachine.run client cuts).2.left.length + offeredBytes cuts ≤ client.left.length := by
  induction cuts generalizing client with
  | nil => exact Nat.le_refl _
  | cons cut cuts ih =>
      have waiting : ∀ result, (client.recv cut).reading ≠ .returned result :=
        fun result returned => waits result (run_returned returned cuts)
      have waitingBefore : ∀ result, client.reading ≠ .returned result :=
        fun result returned => waits result (run_returned returned (cut :: cuts))
      have later := ih (consistent.recv cut) waits
      have missing := (missing_of_waiting fits (consistent.recv cut) waiting).1
      have asked := (missing_of_waiting fits consistent waitingBefore).2
      change (clientMachine.run (client.recv cut) cuts).2.left.length + _ ≤ _
      cases cut with
      | none => exact later
      | some extra =>
          change _ + (extra + 1 + _) ≤ _
          have rest : (client.recv (some extra)).left.length =
              client.left.length - min (extra + 1) client.reading.requested := List.length_drop
          have inside : request.text.length ≤ (request.text ++ more).length := by
            rw [List.length_append]
            exact Nat.le_add_right _ _
          -- An answer cut short would have completed the request.
          omega

end WireRequest

open WireRequest in
/-- **Every well-formed request is read back.** However it is cut and whatever follows it,
the function returns nothing but the method, the path and the body that were sent, and
it returns at the latest with the answer of `recv` that brings the last byte. -/
theorem httpReadRequest_wireRequest (request : WireRequest)
    (fits : request.text.length ≤ httpMaxRequest) (more : List UInt8) (cuts : List (Option Nat)) :
    (∀ result, httpReadRequest (request.text ++ more) cuts = some result →
        result = .ok request.received) ∧
      (request.text.length ≤ offeredBytes cuts →
        httpReadRequest (request.text ++ more) cuts = some (.ok request.received)) := by
  have right : ∀ result, httpReadRequest (request.text ++ more) cuts = some result →
      result = .ok request.received := by
    intro result returned
    rcases httpReadRequest_outcome returned with
      ⟨absent, _⟩ | ⟨headersEnd, used, possible, rfl⟩
    · rw [headersEndOf_text fits] at absent
      cases absent
    · obtain rfl := Option.some.inj ((headersEndOf_text fits more).symm.trans possible.found)
      exact outcomeAt_text fits possible
  refine ⟨right, fun whole => ?_⟩
  cases given : httpReadRequest (request.text ++ more) cuts with
  | some result => rw [right result given]
  | none =>
      have waits : ∀ result, (clientMachine.run
          { reading := .headers [], left := request.text ++ more } cuts).2.reading ≠
            .returned result := by
        intro result returned
        simp only [httpReadRequest, returned] at given
        cases given
      have consistent := run_keeps (Consistent (request.text ++ more))
        (fun _ cut consistent => consistent.recv cut) (consistent_initially _) cuts
      have progress := offered_le_of_waiting fits (consistent_initially _) waits
      have missing := (missing_of_waiting fits consistent waits).1
      simp only at progress
      omega

/-- A query whose length is declared in lower case, received in three pieces with an
interruption between them, with another request behind it. -/
theorem httpReadRequest_wireRequest_query :
    ∃ request : WireRequest,
      request.text = ascii "POST /query HTTP/1.1\r\nHost: db\r\ncontent-length: 03\r\n\r\nabc" ∧
        httpReadRequest (request.text ++ ascii "GET") [some 9, none, some 41, some 4] =
          some (.ok request.received) := by
  refine ⟨{
    method := ⟨ascii "POST", by decide +kernel, by decide +kernel, by decide +kernel,
      by decide +kernel⟩
    path := ⟨ascii "/query", by decide +kernel, by decide +kernel, by decide +kernel,
      by decide +kernel⟩
    version := ascii "HTTP/1.1"
    headers := [ascii "Host: db", ascii "content-length: 03"]
    body := ascii "abc"
    version_plain := ⟨by decide +kernel, by decide +kernel, by decide +kernel, by decide +kernel⟩
    headers_plain := by
      simp only [List.mem_cons, List.not_mem_nil, or_false, forall_eq_or_imp, forall_eq]
      exact ⟨⟨by decide +kernel, by decide +kernel, by decide +kernel, by decide +kernel⟩,
        ⟨by decide +kernel, by decide +kernel, by decide +kernel, by decide +kernel⟩⟩
    declared := @DeclaredLength.once [ascii "Host: db"] _ [] _
      ⟨ascii "content-length:", [32], ascii "03", [], by decide +kernel⟩ (by decide +kernel)
    body_fits := by decide +kernel }, by decide +kernel, ?_⟩
  exact (httpReadRequest_wireRequest _ (by decide +kernel) _ _).2 (by decide +kernel)

end MiniDbms.Http
