import MiniDbms.Http.Cutting

/-! # Independence of TCP segmentation

`sscanf` and `strtoul` are not stopped by the end of the headers, so bytes behind it
can make up for a word or a number missing before it, if they happen to be in the
buffer. The result of `http_read_request` is independent of the cutting of a stream
exactly when the stream does not offer this (`MiniDbms.Http.segmentationFree_iff`).
-/

namespace MiniDbms.Http

open Foundation

variable {stream : List UInt8} {headersEnd used : Nat}

/-- The request with a body of `contentLength` bytes, if the limits and the stream allow
for it. -/
def requestOf (stream : List UInt8) (headersEnd : Nat) (method path : List UInt8)
    (contentLength : Nat) : Option HttpRequest :=
  if contentLength ≤ httpMaxBody ∧ headersEnd + 4 + contentLength ≤ httpMaxRequest ∧
      headersEnd + 4 + contentLength ≤ stream.length then
    some {
      method := (CString.ofBuffer method).truncate 7
      path := (CString.ofBuffer path).truncate 127
      body := (stream.drop (headersEnd + 4)).take contentLength
      bodyLen := contentLength }
  else none

/-- The outcome is read from the words and the length that are in the buffer. -/
theorem outcomeAt_toOption (fits : used ≤ httpMaxRequest) :
    (outcomeAt stream headersEnd used).toOption =
      (scanRequestLine ((headText stream).take used)).bind fun words =>
        (parseContentLength ((headText stream).take used) headersEnd).bind
          (requestOf stream headersEnd words.1 words.2) := by
  simp only [outcomeAt, parseHead, text_take stream fits]
  cases scanRequestLine ((headText stream).take used) with
  | none => rfl
  | some words =>
      obtain ⟨method, path⟩ := words
      cases parseContentLength ((headText stream).take used) headersEnd with
      | none => rfl
      | some contentLength =>
          simp only [Option.bind_some, requestOf]
          by_cases small : contentLength ≤ httpMaxBody
          · by_cases room : headersEnd + 4 + contentLength ≤ httpMaxRequest
            · simp only [Nat.not_lt.mpr small, Nat.not_lt.mpr room, ↓reduceIte, small, room,
                true_and, RequestHead.totalNeeded]
              by_cases sent : headersEnd + 4 + contentLength ≤ stream.length
              · simp only [Nat.not_lt.mpr sent, ↓reduceIte, sent, Except.toOption]
              · simp only [Nat.lt_of_not_le sent, ↓reduceIte, sent, Except.toOption]
            · simp only [Nat.not_lt.mpr small, Nat.lt_of_not_le room, ↓reduceIte, room, false_and,
                and_false, Except.toOption]
          · simp only [Nat.lt_of_not_le small, ↓reduceIte, small, false_and, Except.toOption]

/-- The result when the end of the headers is found with `used` bytes in the buffer. -/
theorem outcome_behind (possible : Possible stream headersEnd used) :
    (outcomeAt stream headersEnd used).toOption =
      (scanRequestLine ((headText stream).take used)).bind fun words =>
        (lengthOf ((lengthText (headerText stream headersEnd) headersEnd).map
          (· ++ (behindText stream headersEnd).take (used - (headersEnd + 4))))).bind
            (requestOf stream headersEnd words.1 words.2) := by
  rw [outcomeAt_toOption possible.fits, take_headText possible.least,
    (headerBlock possible.found).parseContentLength_append]

/-- Every two cuttings of the stream give the same success or failure and, on success,
the same request. -/
def SegmentationFree (stream : List UInt8) : Prop :=
  ∀ cuts cuts' result result', httpReadRequest stream cuts = some result →
    httpReadRequest stream cuts' = some result' → result.toOption = result'.toOption

/-- Some of the bytes behind the header block read as a body length that the limits and
the stream allow for. -/
def LengthBehind (stream : List UInt8) (headersEnd : Nat) : Prop :=
  ∃ count contentLength rest,
    strtoul ((behindText stream headersEnd).take count) = some (contentLength, rest) ∧
      contentLength ≤ httpMaxBody ∧ headersEnd + 4 + contentLength ≤ httpMaxRequest ∧
        headersEnd + 4 + contentLength ≤ stream.length

/-- The header block says all that the function reads from the headers: it has both words
of the request line, if they are in the buffer at all, and a body length that it leaves
blank is not made up for behind it. -/
def HeadersSuffice (stream : List UInt8) : Prop :=
  ∀ headersEnd, headersEndOf stream = some headersEnd →
    scanRequestLine (headText stream) = none ∨
      (scanRequestLine (headerText stream headersEnd) ≠ none ∧
        ∀ value, lengthText (headerText stream headersEnd) headersEnd = some value →
          value.dropWhile isSpace = [] → ¬ LengthBehind stream headersEnd)

/-- What the words and the length in the header block make of the stream. -/
def blockOutcome (stream : List UInt8) (headersEnd : Nat) : Option HttpRequest :=
  (scanRequestLine (headerText stream headersEnd)).bind fun words =>
    (lengthOf (lengthText (headerText stream headersEnd) headersEnd)).bind
      (requestOf stream headersEnd words.1 words.2)

/-- The header block ends in white space. -/
theorem headerText_concat (found : headersEndOf stream = some headersEnd) :
    ∃ front, headerText stream headersEnd = front ++ [lineFeed] :=
  (headerBlock found).concat

/-- So does the value of a header in it. -/
theorem lengthText_concat (found : headersEndOf stream = some headersEnd) {value : List UInt8}
    (named : lengthText (headerText stream headersEnd) headersEnd = some value) :
    ∃ front, value = front ++ [lineFeed] := by
  obtain ⟨nonempty, before, name, split, _⟩ := (headerBlock found).lengthText_spec named
  obtain ⟨front, concat⟩ := headerText_concat found
  rcases List.eq_nil_or_concat' value with empty | ⟨initial, last, rfl⟩
  · exact absurd empty nonempty
  · rw [concat, ← List.append_assoc, ← List.append_assoc] at split
    obtain ⟨_, same⟩ := List.append_inj' split rfl
    exact ⟨initial, by rw [← same]⟩

/-- When the block suffices, the bytes behind it do not matter. -/
theorem outcome_of_suffices (suffices_ : HeadersSuffice stream)
    (possible : Possible stream headersEnd used) :
    (outcomeAt stream headersEnd used).toOption =
      if scanRequestLine (headText stream) = none then none
      else blockOutcome stream headersEnd := by
  rw [outcome_behind possible]
  rcases suffices_ headersEnd possible.found with incomplete | ⟨complete, notBehind⟩
  · have none : scanRequestLine ((headText stream).take used) = none := by
      by_contra present
      have more := isSome_scanRequestLine_append (Option.isSome_iff_ne_none.mpr present)
        ((headText stream).drop used)
      rw [List.take_append_drop, incomplete] at more
      cases more
    rw [none, if_pos incomplete]
    rfl
  · obtain ⟨words, scanned⟩ := Option.ne_none_iff_exists'.mp complete
    obtain ⟨front, concat⟩ := headerText_concat possible.found
    have same : ∀ more, scanRequestLine (headerText stream headersEnd ++ more) = some words := by
      intro more
      rw [concat] at scanned ⊢
      exact scanRequestLine_append rfl scanned more
    have present : scanRequestLine (headText stream) ≠ none := by
      rw [← headerText_append_behindText stream headersEnd, same]
      exact nofun
    rw [if_neg present, blockOutcome, scanned, take_headText possible.least, same]
    simp only [Option.bind_some]
    cases named : lengthText (headerText stream headersEnd) headersEnd with
    | none => rfl
    | some value =>
        obtain ⟨begun, rfl⟩ := lengthText_concat possible.found named
        by_cases blank : begun.dropWhile isSpace = []
        · -- A blank value: what stands behind it leads to no request.
          have blankValue : (begun ++ [lineFeed]).dropWhile isSpace = [] := by
            rw [List.dropWhile_append, blank]
            rfl
          simp only [Option.map_some, lengthOf, strtoul_blank blankValue,
            strtoul_blank_append blankValue, Option.map_none, Option.bind_none]
          rw [Option.bind_eq_none_iff]
          intro contentLength read
          obtain ⟨⟨_, rest⟩, scanned, rfl⟩ := Option.map_eq_some_iff.mp read
          refine if_neg fun ⟨small, room, sent⟩ => ?_
          exact notBehind _ named blankValue ⟨_, _, rest, scanned, small, room, sent⟩
        · simp only [Option.map_some, lengthOf, List.append_assoc, List.singleton_append,
            @strtoul_append begun lineFeed rfl blank]

/-- Any part of the text that reaches the end of the headers may be in the buffer. -/
theorem possible_of_le (found : headersEndOf stream = some headersEnd)
    (least : headersEnd + 4 ≤ used) (most : used ≤ (headText stream).length) :
    Possible stream headersEnd used :=
  ⟨found, least, most.trans (length_headText_le stream).1,
    most.trans (length_headText_le stream).2⟩

/-- A stream whose result does not depend on the cutting has one outcome. -/
theorem SegmentationFree.outcome_eq (free : SegmentationFree stream) {other : Nat}
    (one : Possible stream headersEnd used) (another : Possible stream headersEnd other) :
    (outcomeAt stream headersEnd used).toOption = (outcomeAt stream headersEnd other).toOption := by
  obtain ⟨cuts, returned⟩ := exists_cuts one
  obtain ⟨cuts', returned'⟩ := exists_cuts another
  exact free cuts cuts' _ _ returned returned'

theorem requestOf_isSome {method path : List UInt8} {contentLength : Nat}
    (small : contentLength ≤ httpMaxBody)
    (room : headersEnd + 4 + contentLength ≤ httpMaxRequest)
    (sent : headersEnd + 4 + contentLength ≤ stream.length) :
    requestOf stream headersEnd method path contentLength ≠ none := by
  rw [requestOf, if_pos ⟨small, room, sent⟩]
  exact nofun

/-- Both words are in the block, if they are in the buffer at all. -/
theorem SegmentationFree.words (free : SegmentationFree stream)
    (found : headersEndOf stream = some headersEnd)
    (present : scanRequestLine (headText stream) ≠ none) :
    scanRequestLine (headerText stream headersEnd) ≠ none := by
  intro incomplete
  have inside := le_length_headText found
  have early := possible_of_le found (Nat.le_refl _) inside
  have late := possible_of_le found inside (Nat.le_refl _)
  have same := free.outcome_eq early late
  obtain ⟨words, scanned⟩ := Option.ne_none_iff_exists'.mp present
  -- Without both words in it, the block has no room for the name of the header either.
  have unnamed : lengthText (headerText stream headersEnd) headersEnd = none := by
    by_contra named
    obtain ⟨value, named⟩ := Option.ne_none_iff_exists'.mp named
    have both := (headerBlock found).isSome_scanRequestLine named
    rw [incomplete] at both
    cases both
  rw [outcome_behind early, outcome_behind late, unnamed, List.take_length, scanned] at same
  change (scanRequestLine (headerText stream headersEnd)).bind _ = _ at same
  rw [incomplete] at same
  exact requestOf_isSome (Nat.zero_le _) (inside.trans (length_headText_le stream).1)
    (inside.trans (length_headText_le stream).2) same.symm

/-- What stands behind the block does not make up for a blank length. -/
theorem SegmentationFree.length (free : SegmentationFree stream)
    (found : headersEndOf stream = some headersEnd)
    (complete : scanRequestLine (headerText stream headersEnd) ≠ none) {value : List UInt8}
    (named : lengthText (headerText stream headersEnd) headersEnd = some value)
    (blank : value.dropWhile isSpace = []) : ¬ LengthBehind stream headersEnd := by
  rintro ⟨count, contentLength, rest, read, small, room, sent⟩
  have inside := le_length_headText found
  have length : (behindText stream headersEnd).length =
      (headText stream).length - (headersEnd + 4) := List.length_drop
  have early := possible_of_le found (Nat.le_refl _) inside
  have late := possible_of_le found
    (Nat.le_add_right (headersEnd + 4) (min count (behindText stream headersEnd).length))
    (by omega)
  have same := free.outcome_eq early late
  obtain ⟨words, scanned⟩ := Option.ne_none_iff_exists'.mp complete
  obtain ⟨front, concat⟩ := headerText_concat found
  have again : ∀ more, scanRequestLine (headerText stream headersEnd ++ more) = some words := by
    intro more
    rw [concat] at scanned ⊢
    exact scanRequestLine_append rfl scanned more
  rw [outcome_behind early, outcome_behind late, named, take_headText early.least,
    take_headText late.least, again, again, Nat.sub_self, List.take_zero,
    Nat.add_sub_cancel_left, ← List.take_eq_take_min] at same
  simp only [Option.bind_some, Option.map_some, lengthOf, List.append_nil, strtoul_blank blank,
    strtoul_blank_append blank, read, Option.map_none, Option.bind_none] at same
  exact requestOf_isSome small room sent same.symm

/-- **Independence of TCP segmentation.** The result of `http_read_request` does not
depend on how the stream is cut if and only if the header block says all that is read
from the headers. -/
theorem segmentationFree_iff (stream : List UInt8) :
    SegmentationFree stream ↔ HeadersSuffice stream := by
  constructor
  · intro free headersEnd found
    by_cases incomplete : scanRequestLine (headText stream) = none
    · exact .inl incomplete
    · have complete := free.words found incomplete
      exact .inr ⟨complete, fun value named blank => free.length found complete named blank⟩
  · intro enough cuts cuts' result result' returned returned'
    rcases httpReadRequest_outcome returned with
      ⟨absent, failed⟩ | ⟨headersEnd, used, possible, rfl⟩ <;>
    rcases httpReadRequest_outcome returned' with
      ⟨absent', failed'⟩ | ⟨headersEnd', used', possible', rfl⟩
    · rw [failed, failed']
    · rw [possible'.found] at absent
      cases absent
    · rw [possible.found] at absent'
      cases absent'
    · obtain rfl := Option.some.inj (possible.found.symm.trans possible'.found)
      rw [outcome_of_suffices enough possible, outcome_of_suffices enough possible']

/-- A request line of one word: the path is read from behind the blank line if it is in
the buffer with the headers, and missing otherwise. -/
theorem segmentation_matters_without_path :
    let stream := ascii "GET\r\n\r\n/health"
    (httpReadRequest stream [some 6]).map Except.toOption = some none ∧
      (httpReadRequest stream [some 13]).map Except.toOption =
        some (some {
          method := (CString.ofBuffer (ascii "GET")).truncate 7
          path := (CString.ofBuffer (ascii "/health")).truncate 127
          body := []
          bodyLen := 0 }) ∧
      ¬ SegmentationFree stream := by
  have separate : (httpReadRequest (ascii "GET\r\n\r\n/health") [some 6]).map Except.toOption =
      some none := by decide +kernel
  have together : (httpReadRequest (ascii "GET\r\n\r\n/health") [some 13]).map Except.toOption =
      some (some {
        method := (CString.ofBuffer (ascii "GET")).truncate 7
        path := (CString.ofBuffer (ascii "/health")).truncate 127
        body := []
        bodyLen := 0 }) := by decide +kernel
  refine ⟨separate, together, fun free => ?_⟩
  obtain ⟨result, returned, failed⟩ := Option.map_eq_some_iff.mp separate
  obtain ⟨result', returned', read⟩ := Option.map_eq_some_iff.mp together
  have same := free _ _ _ _ returned returned'
  rw [failed, read] at same
  cases same

end MiniDbms.Http
