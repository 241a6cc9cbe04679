import MiniDbms.Http.WellFormed

/-! # The framing of accepted requests

`sscanf` cuts the method after seven bytes and reads on, and `strtoul` takes a sign
and skips line ends; neither looks at what follows a number. So a request may be
accepted although its headers do not say what was read from them. They do if and
only if nothing of this can happen on their lines
(`MiniDbms.Http.properlyFramed_iff`).
-/

namespace MiniDbms.Http

open Foundation

/-- `isblank` in the C locale. -/
def isBlankByte (byte : UInt8) : Bool := byte == 32 || byte == 9

/-- What stands before, between and behind the line ends of a text. -/
def crlfLines (text : List UInt8) : List (List UInt8) :=
  if found : (strstr crlf text).isSome then
    let lineLen := (strstr crlf text).get found
    text.take lineLen :: crlfLines (text.drop (lineLen + 2))
  else [text]
termination_by text.length
decreasing_by
  have inside := strstr_le crlf_ne_nil (Option.some_get found).symm
  rw [List.length_drop]
  simp only [crlf, List.length_cons, List.length_nil] at inside
  omega

/-- The line before the first line end. -/
def firstLine (stream : List UInt8) : List UInt8 := (crlfLines stream).headD []

/-- The lines between the first one and the blank line. -/
def headerLines (stream : List UInt8) : List (List UInt8) :=
  (crlfLines stream).tail.takeWhile (· ≠ [])

/-- The first line that names the length of the body. -/
def lengthLine (stream : List UInt8) : Option (List UInt8) :=
  (headerLines stream).find? (NamesLength ·)

/-- The second word of a text. -/
def secondWord (text : List UInt8) : List UInt8 := firstWord (behindWord text)

/-- Behind the colon of the line there are digits between blanks, and this is their value. -/
def GivesLength (line : List UInt8) (contentLength : Nat) : Prop :=
  ∃ before digits after, line.drop 15 = before ++ (digits ++ after) ∧
    (∀ byte ∈ before, isBlankByte byte = true) ∧ (∀ byte ∈ after, isBlankByte byte = true) ∧
      digits ≠ [] ∧ (∀ byte ∈ digits, isDigit byte = true) ∧ numeralValue digits = contentLength

/-- The lines of the stream say what the request is. -/
structure ProperlyFramed (stream : List UInt8) (request : HttpRequest) : Prop where
  words : secondWord (firstLine stream) ≠ []
  method : request.method.bytes = (firstWord (firstLine stream)).take 7
  path : request.path.bytes = (secondWord (firstLine stream)).take 127
  length : ∀ line, lengthLine stream = some line → GivesLength line request.bodyLen
  noLength : lengthLine stream = none → request.bodyLen = 0

/-- The first line has two words, of which the first is not too long, and the length has
no sign, is on its line and is followed by blanks only. -/
structure Unambiguous (stream : List UInt8) : Prop where
  words : secondWord (firstLine stream) ≠ []
  /-- Or the second word happens to be what is left of the first. -/
  short : (firstWord (firstLine stream)).length ≤ 7 ∨
    ((firstWord (firstLine stream)).drop 7).take 127 = (secondWord (firstLine stream)).take 127
  begins : ∀ line, lengthLine stream = some line →
    ∃ digit ∈ ((line.drop 15).dropWhile isBlankByte).head?, isDigit digit = true
  ends : ∀ line, lengthLine stream = some line →
    ∀ byte ∈ ((line.drop 15).dropWhile isBlankByte).dropWhile isDigit, isBlankByte byte = true

/-- The first line ends at the first line end. -/
theorem crlfLines_of_found {text : List UInt8} {lineLen : Nat}
    (found : strstr crlf text = some lineLen) :
    crlfLines text = text.take lineLen :: crlfLines (text.drop (lineLen + 2)) := by
  have isFound : (strstr crlf text).isSome = true := by rw [found, Option.isSome_some]
  have same : (strstr crlf text).get isFound = lineLen := by simp only [found, Option.get_some]
  rw [crlfLines, dif_pos isFound, same]

theorem strstr_crlf_of_prefix {text : List UInt8} (starts : crlf <+: text) :
    strstr crlf text = some 0 :=
  (strstr_eq_some_iff crlf_ne_nil).mpr ⟨starts, nofun⟩

/-- Behind the line that ends at a blank line there is a line end, and behind an earlier
one the blank line is still to come. -/
theorem lineEnd_next {line : List UInt8} {left lineLen : Nat}
    (blank : blankLine <+: line.drop left) (notLater : lineLen ≤ left)
    (found : strstr crlf line = some lineLen) :
    (left - (lineLen + 2) = 0 → crlf <+: line.drop (lineLen + 2)) := by
  intro passed
  obtain ⟨more, split⟩ := blank
  obtain ⟨⟨more', here⟩, _⟩ := (strstr_eq_some_iff crlf_ne_nil).mp found
  obtain ⟨apart, rfl⟩ := Nat.exists_eq_add_of_le notLater
  rw [← List.drop_drop, ← here] at split
  rw [← List.drop_drop, ← here]
  obtain rfl | rfl | rfl : apart = 0 ∨ apart = 1 ∨ apart = 2 := by omega
  · rw [List.drop_zero] at split
    have same : crlf ++ more = more' := List.append_cancel_left
      ((List.append_assoc crlf crlf more).symm.trans split)
    exact ⟨more, same⟩
  · exact absurd split nofun
  · exact (crlf_prefix_blankLine.trans ⟨more, split⟩)

/-- The loop finds the first line that names the length. -/
theorem contentLengthValue_find {line : List UInt8} {left : Nat} (ended : left = 0 → crlf <+: line)
    (blank : 0 < left → blankLine <+: line.drop left) (more : List UInt8) :
    match ((crlfLines (line ++ more)).takeWhile (· ≠ [])).find? (NamesLength ·) with
    | none => contentLengthValue line left = none
    | some named => ∃ rest,
        contentLengthValue line left = some (named.drop 15 ++ (crlf ++ rest)) := by
  induction left using Nat.strongRecOn generalizing line with
  | ind left ih =>
      rcases Nat.eq_zero_or_pos left with rfl | positive
      · have found := strstr_crlf_of_prefix ((ended rfl).trans (List.prefix_append line more))
        rw [crlfLines_of_found found, List.take_zero, contentLengthValue]
        rfl
      · obtain ⟨lineLen, notLater, found, inside, further⟩ := nextLine (blank positive)
        rw [crlfLines_of_found (strstr_append crlf_ne_nil found more),
          List.take_append_of_le_length (by omega), List.drop_append_of_le_length inside,
          contentLengthValue_round positive notLater found]
        rcases Nat.eq_zero_or_pos lineLen with rfl | long
        · rfl
        · have length : (line.take lineLen).length = lineLen :=
            List.length_take_of_le (by omega)
          have nonempty : line.take lineLen ≠ [] :=
            List.ne_nil_of_length_pos (by rw [length]; exact long)
          obtain ⟨⟨rest, ends⟩, _⟩ := (strstr_eq_some_iff crlf_ne_nil).mp found
          have split : line = line.take lineLen ++ (crlf ++ rest) := by
            rw [ends, List.take_append_drop]
          have names := @namesLength_iff (line.take lineLen) (crlf ++ rest)
          rw [← split, length] at names
          rw [List.takeWhile_cons, if_pos (decide_eq_true nonempty), List.find?_cons,
            if_neg long.ne']
          by_cases named : NamesLength (line.take lineLen)
          · have fifteen := names.mpr named
            rw [if_pos fifteen, decide_eq_true named]
            refine ⟨rest, ?_⟩
            rw [Bool.and_eq_true, decide_eq_true_eq] at fifteen
            conv_lhs => rw [split]
            rw [List.drop_append_of_le_length (by rw [length]; exact fifteen.1)]
          · rw [if_neg fun fifteen => named (names.mp fifteen), decide_eq_false named]
            exact ih _ (by omega) (lineEnd_next (blank positive) notLater found) further

/-- A line with a second word has a first one. -/
theorem firstWord_of_secondWord {line : List UInt8} (words : secondWord line ≠ []) :
    firstWord line ≠ [] := by
  intro absent
  rw [secondWord, behindWord, dropWhile_of_firstWord_nil absent] at words
  exact words rfl

/-- The words that are read when the line has two. -/
theorem scanRequestLine_line {line : List UInt8} {stop : UInt8} (space : isSpace stop = true)
    (words : secondWord line ≠ []) (more : List UInt8) :
    scanRequestLine (line ++ stop :: more) =
      some ((firstWord line).take 7, if (firstWord line).length ≤ 7 then (secondWord line).take 127
        else ((firstWord line).drop 7).take 127) := by
  have first := firstWord_of_secondWord words
  obtain ⟨sameFirst, sameBehind⟩ := words_append space first more
  have method := @scanWord_firstWord 7 (line ++ stop :: more) (by decide) (by rwa [sameFirst])
  rw [sameFirst, sameBehind] at method
  split
  · next short =>
      obtain ⟨sameSecond, _⟩ := words_append space words more
      rw [List.drop_eq_nil_of_le short, List.nil_append] at method
      have path := @scanWord_firstWord 127 (behindWord line ++ stop :: more) (by decide) (by
        rwa [sameSecond])
      rw [sameSecond] at path
      exact scanRequestLine_of_words method path
  · next long =>
      have cut : firstWord ((firstWord line).drop 7 ++ (behindWord line ++ stop :: more)) =
          (firstWord line).drop 7 := by
        apply firstWord_chars
        · rw [Ne, List.drop_eq_nil_iff]
          exact long
        · intro byte member
          exact List.mem_takeWhile_imp (List.mem_of_mem_drop member)
        · intro byte next
          rw [List.head?_append_of_ne_nil _ (fun ended => words (by
            rw [secondWord, ended]
            rfl))] at next
          exact dropWhile_stops isWordChar _ byte next
      have path := @scanWord_firstWord 127 ((firstWord line).drop 7 ++
        (behindWord line ++ stop :: more)) (by decide) (by
          rw [cut, Ne, List.drop_eq_nil_iff]
          exact long)
      rw [cut] at path
      exact scanRequestLine_of_words method path

/-- What `http_read_request` made of the text that was in the buffer when it had found the
end of the headers. -/
structure Accepted (stream : List UInt8) (request : HttpRequest) where
  text : List UInt8
  more : List UInt8
  headersEnd : Nat
  method : List UInt8
  path : List UInt8
  noNul : 0 ∉ text
  split : stream = text ++ more
  blank : strstr blankLine text = some headersEnd
  scanned : scanRequestLine text = some (method, path)
  length : parseContentLength text headersEnd = some request.bodyLen
  small : request.bodyLen ≤ httpMaxBody
  isMethod : request.method = (CString.ofBuffer method).truncate 7
  isPath : request.path = (CString.ofBuffer path).truncate 127

/-- A request that is returned was accepted. -/
theorem accepted_of_returned {stream : List UInt8} {cuts : List (Option Nat)}
    {request : HttpRequest} (returned : httpReadRequest stream cuts = some (.ok request)) :
    Nonempty (Accepted stream request) := by
  rcases httpReadRequest_outcome returned with ⟨_, failed⟩ | ⟨headersEnd, used, possible, same⟩
  · cases failed
  · have outcome := @outcomeAt_toOption stream headersEnd used possible.fits
    rw [← same] at outcome
    obtain ⟨⟨method, path⟩, scanned, outcome⟩ := Option.bind_eq_some_iff.mp outcome.symm
    obtain ⟨contentLength, length, outcome⟩ := Option.bind_eq_some_iff.mp outcome
    rw [requestOf] at outcome
    split at outcome
    · next limits =>
        cases outcome
        have whole : (headText stream).take used <+: stream :=
          (List.take_prefix _ _).trans ((List.takeWhile_prefix _).trans (List.take_prefix _ _))
        obtain ⟨more, split⟩ := whole
        exact ⟨{
          text := (headText stream).take used
          more := more
          headersEnd := headersEnd
          method := method
          path := path
          noNul := fun member => (CString.ofBuffer _).noNul (List.mem_of_mem_take member)
          split := split.symm
          blank := (strstr_take blankLine_ne_nil).mpr ⟨possible.found, possible.least⟩
          scanned := scanned
          length := length
          small := limits.1
          isMethod := rfl
          isPath := rfl }⟩
    · cases outcome

namespace Accepted

variable {stream : List UInt8} {request : HttpRequest}

/-- The first line is in the text that was read. -/
theorem line (accepted : Accepted stream request) :
    ∃ requestLine rest, strstr crlf accepted.text = some requestLine ∧
      accepted.text = firstLine stream ++ (crlf ++ rest) ∧
      (crlfLines stream).tail = crlfLines (accepted.text.drop (requestLine + 2) ++ accepted.more) ∧
      (accepted.headersEnd - (requestLine + 2) = 0 →
        crlf <+: accepted.text.drop (requestLine + 2)) ∧
      (0 < accepted.headersEnd - (requestLine + 2) → blankLine <+:
        (accepted.text.drop (requestLine + 2)).drop (accepted.headersEnd - (requestLine + 2))) := by
  have blank := ((strstr_eq_some_iff blankLine_ne_nil).mp accepted.blank).1
  obtain ⟨requestLine, notLater, found, inside, further⟩ := nextLine blank
  obtain ⟨⟨rest, here⟩, _⟩ := (strstr_eq_some_iff crlf_ne_nil).mp found
  have lines := crlfLines_of_found (strstr_append crlf_ne_nil found accepted.more)
  rw [← accepted.split, accepted.split, List.take_append_of_le_length (by omega),
    List.drop_append_of_le_length inside, ← accepted.split] at lines
  refine ⟨requestLine, rest, found, ?_, ?_, lineEnd_next blank notLater found, further⟩
  · rw [firstLine, lines, List.headD_cons, here, List.take_append_drop]
  · rw [lines, List.tail_cons]

/-- The words that were read, if the first line has two. -/
theorem words (accepted : Accepted stream request) (two : secondWord (firstLine stream) ≠ []) :
    request.method.bytes = (firstWord (firstLine stream)).take 7 ∧
      request.path.bytes = if (firstWord (firstLine stream)).length ≤ 7 then
          (secondWord (firstLine stream)).take 127
        else ((firstWord (firstLine stream)).drop 7).take 127 := by
  obtain ⟨_, rest, _, split, _⟩ := accepted.line
  have scanned := accepted.scanned
  have noNul : 0 ∉ firstLine stream := by
    intro member
    apply accepted.noNul
    rw [split]
    exact List.mem_append_left _ member
  have read : scanRequestLine (firstLine stream ++ (crlf ++ rest)) = _ :=
    scanRequestLine_line rfl two (lineFeed :: rest)
  rw [split, read] at scanned
  obtain ⟨isMethod, isPath⟩ := Prod.mk.inj (Option.some.inj scanned)
  have first : ∀ byte ∈ firstWord (firstLine stream), byte ∈ firstLine stream := fun byte member =>
    ((List.takeWhile_sublist _).trans (List.dropWhile_sublist _)).subset member
  have second : ∀ byte ∈ secondWord (firstLine stream), byte ∈ firstLine stream :=
    fun byte member => ((List.takeWhile_sublist _).trans ((List.dropWhile_sublist _).trans
      ((List.dropWhile_sublist _).trans (List.dropWhile_sublist _)))).subset member
  have cut : ∀ (limit : Nat) (word : List UInt8), 0 ∉ word →
      ((CString.ofBuffer (word.take limit)).truncate limit).bytes = word.take limit :=
    fun limit word absent => BoundedString.truncate_ofBuffer
      (fun member => absent (List.mem_of_mem_take member)) (List.length_take_le limit word)
  rw [accepted.isMethod, accepted.isPath, ← isMethod, ← isPath]
  refine ⟨cut 7 _ fun member => noNul (first 0 member), ?_⟩
  split
  · exact cut 127 _ fun member => noNul (second 0 member)
  · exact cut 127 _ fun member => noNul (first 0 (List.mem_of_mem_drop member))

/-- The number that was read stands on the length line or behind it. -/
theorem lengthLine (accepted : Accepted stream request) :
    match Http.lengthLine stream with
    | none => request.bodyLen = 0
    | some named => ∃ rest,
        (strtoul (named.drop 15 ++ (crlf ++ rest))).map Prod.fst = some request.bodyLen := by
  obtain ⟨requestLine, _, found, _, tail, ended, blank⟩ := accepted.line
  have length := accepted.length
  rw [parseContentLength_eq found, lengthText, found, Option.bind_some] at length
  have finds := contentLengthValue_find ended blank accepted.more
  rw [← tail] at finds
  rw [Http.lengthLine, headerLines]
  split at finds
  · rw [finds] at length
    exact (Option.some.inj length).symm
  · obtain ⟨rest, value⟩ := finds
    rw [value] at length
    exact ⟨rest, length⟩

end Accepted

theorem isSpace_of_isBlankByte {byte : UInt8} (blank : isBlankByte byte = true) :
    isSpace byte = true := by
  grind [isBlankByte, isSpace]

theorem isDigit_of_isBlankByte {byte : UInt8} (blank : isBlankByte byte = true) :
    isDigit byte = false := by
  grind [isBlankByte, isDigit]

/-- A number that begins and ends on its line is the one that is read. -/
theorem givesLength_of_strtoul {line rest : List UInt8} {contentLength : Nat}
    (begins : ∃ digit ∈ ((line.drop 15).dropWhile isBlankByte).head?, isDigit digit = true)
    (ends : ∀ byte ∈ ((line.drop 15).dropWhile isBlankByte).dropWhile isDigit,
      isBlankByte byte = true)
    (read : (strtoul (line.drop 15 ++ (crlf ++ rest))).map Prod.fst = some contentLength)
    (small : contentLength ≤ httpMaxBody) : GivesLength line contentLength := by
  let value := line.drop 15
  let before := value.takeWhile isBlankByte
  let digits := (value.dropWhile isBlankByte).takeWhile isDigit
  let after := (value.dropWhile isBlankByte).dropWhile isDigit
  have split : value = before ++ (digits ++ after) := by
    rw [List.takeWhile_append_dropWhile, List.takeWhile_append_dropWhile]
  have blank : ∀ byte ∈ before, isBlankByte byte = true := fun _ => List.mem_takeWhile_imp
  have all : ∀ byte ∈ digits, isDigit byte = true := fun _ => List.mem_takeWhile_imp
  have nonempty : digits ≠ [] := by
    obtain ⟨digit, first, isDigit_⟩ := begins
    obtain ⟨more, starts⟩ := List.head?_eq_some_iff.mp first
    change (value.dropWhile isBlankByte).takeWhile isDigit ≠ []
    rw [starts, List.takeWhile_cons, if_pos isDigit_]
    exact List.cons_ne_nil _ _
  have stop : NoDigitFirst (after ++ (crlf ++ rest)) := by
    intro byte first
    rcases empty : after with _ | ⟨lead, others⟩ <;> rw [empty] at first
    · cases first
      rfl
    · cases first
      have member : byte ∈ after := by rw [empty]; exact List.mem_cons_self
      exact isDigit_of_isBlankByte (ends byte member)
  refine ⟨before, digits, after, split, blank, ends, nonempty, all, ?_⟩
  have number := strtoul_digits (fun byte member => isSpace_of_isBlankByte (blank byte member))
    nonempty all stop
  rw [← List.append_assoc digits, ← List.append_assoc before, ← split] at number
  rw [number, Option.map_some, Option.some.injEq] at read
  rw [← read] at small ⊢
  rw [ulongOf_false] at small ⊢
  have room : httpMaxBody < ulongMax := by decide
  omega

/-- Digits between blanks begin and end the number. -/
theorem GivesLength.unambiguous {line : List UInt8} {contentLength : Nat}
    (gives : GivesLength line contentLength) :
    (∃ digit ∈ ((line.drop 15).dropWhile isBlankByte).head?, isDigit digit = true) ∧
      ∀ byte ∈ ((line.drop 15).dropWhile isBlankByte).dropWhile isDigit,
        isBlankByte byte = true := by
  obtain ⟨before, digits, after, split, blank, ends, nonempty, all, _⟩ := gives
  obtain ⟨lead, others, rfl⟩ := List.exists_cons_of_ne_nil nonempty
  have digit := all lead List.mem_cons_self
  have notBlank : isBlankByte lead = false := by
    by_contra blank
    rw [isDigit_of_isBlankByte (eq_true_of_ne_false blank)] at digit
    cases digit
  have number : (line.drop 15).dropWhile isBlankByte = lead :: others ++ after := by
    rw [split]
    apply dropWhile_run blank
    rintro _ ⟨⟩
    exact notBlank
  have behind : (lead :: others ++ after).dropWhile isDigit = after := by
    apply dropWhile_run all
    intro byte first
    exact isDigit_of_isBlankByte (ends byte (List.mem_of_mem_head? first))
  rw [number, behind]
  exact ⟨⟨lead, rfl, digit⟩, ends⟩

/-- **Framing.** The lines of a stream say what the accepted request is if and only if they
are unambiguous. -/
theorem properlyFramed_iff {stream : List UInt8} {cuts : List (Option Nat)}
    {request : HttpRequest} (returned : httpReadRequest stream cuts = some (.ok request)) :
    ProperlyFramed stream request ↔ Unambiguous stream := by
  obtain ⟨accepted⟩ := accepted_of_returned returned
  constructor
  · intro framed
    obtain ⟨_, path⟩ := accepted.words framed.words
    refine ⟨framed.words, ?_, fun line named => (framed.length line named).unambiguous.1,
      fun line named => (framed.length line named).unambiguous.2⟩
    rw [framed.path] at path
    split at path
    · next short => exact .inl short
    · exact .inr path.symm
  · intro unambiguous
    obtain ⟨method, path⟩ := accepted.words unambiguous.words
    have length := accepted.lengthLine
    refine ⟨unambiguous.words, method, ?_, fun line named => ?_, fun unnamed => ?_⟩
    · rw [path]
      split
      · rfl
      · next long => exact unambiguous.short.resolve_left long
    · rw [named] at length
      obtain ⟨rest, read⟩ := length
      exact givesLength_of_strtoul (unambiguous.begins line named) (unambiguous.ends line named)
        read accepted.small
    · rw [unnamed] at length
      exact length

/-- A length between blanks, received in parts. -/
theorem properlyFramed_iff_query :
    ProperlyFramed (ascii "POST /query HTTP/1.1\r\ncontent-LENGTH: \t5 \r\n\r\nhello") {
      method := (CString.ofBuffer (ascii "POST")).truncate 7
      path := (CString.ofBuffer (ascii "/query")).truncate 127
      body := ascii "hello"
      bodyLen := 5 } := by
  apply (@properlyFramed_iff _ [some 9, none, some 70, some 70] _ (by decide +kernel)).mpr
  have named : lengthLine (ascii "POST /query HTTP/1.1\r\ncontent-LENGTH: \t5 \r\n\r\nhello") =
      some (ascii "content-LENGTH: \t5 ") := by decide +kernel
  constructor
  · decide +kernel
  · decide +kernel
  · rw [named]
    rintro line ⟨⟩
    decide
  · rw [named]
    rintro line ⟨⟩
    decide +kernel

/-- A method that is too long takes over the path, and a length with a sign, with text
behind it or on the next line is accepted. -/
theorem properlyFramed_fails_method_and_lengths :
    let request := fun (method path body : String) => ({
      method := (CString.ofBuffer (ascii method)).truncate 7
      path := (CString.ofBuffer (ascii path)).truncate 127
      body := ascii body
      bodyLen := body.length } : HttpRequest)
    let misread := fun (stream : String) (request : HttpRequest) =>
      httpReadRequest (ascii stream) [some 99] = some (.ok request) ∧
        ¬ ProperlyFramed (ascii stream) request
    misread "DELETEALL /query HTTP/1.1\r\n\r\n" (request "DELETEA" "LL" "") ∧
      misread "POST /query HTTP/1.1\r\nContent-Length: +5\r\n\r\nhello"
        (request "POST" "/query" "hello") ∧
      misread "POST /query HTTP/1.1\r\nContent-Length: 5abc\r\n\r\nhello"
        (request "POST" "/query" "hello") ∧
      misread "POST /query HTTP/1.1\r\nContent-Length:\r\n5\r\n\r\nhello"
        (request "POST" "/query" "hello") := by
  have refuted : ∀ {stream line : List UInt8} {request : HttpRequest},
      lengthLine stream = some line →
      ¬ ((∃ digit ∈ ((line.drop 15).dropWhile isBlankByte).head?, isDigit digit = true) ∧
        ∀ byte ∈ ((line.drop 15).dropWhile isBlankByte).dropWhile isDigit,
          isBlankByte byte = true) →
      ¬ ProperlyFramed stream request :=
    fun named ambiguous framed => ambiguous (framed.length _ named).unambiguous
  refine ⟨⟨by decide +kernel, fun framed => ?_⟩, ⟨by decide +kernel, ?_⟩,
    ⟨by decide +kernel, ?_⟩, by decide +kernel, ?_⟩
  · have path := framed.path
    revert path
    decide +kernel
  · apply @refuted _ (ascii "Content-Length: +5") _ (by decide +kernel)
    decide
  · apply @refuted _ (ascii "Content-Length: 5abc") _ (by decide +kernel)
    decide
  · apply @refuted _ (ascii "Content-Length:") _ (by decide +kernel)
    decide

end MiniDbms.Http
