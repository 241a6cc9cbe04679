import MiniDbms.Http.ReadRequest

/-! # What the header block determines

The header block of a request ends with its blank line. When both words of the
request line are in it, they are read the same whatever follows
(`MiniDbms.Http.scanRequestLine_append`), and the line that names the body length is
found in it (`MiniDbms.Http.lengthText_append`).
-/

namespace MiniDbms.Http

open Foundation

/-- Both words were scanned one after the other. -/
theorem scanRequestLine_eq_some {text method path : List UInt8}
    (scanned : scanRequestLine text = some (method, path)) :
    ∃ middle last, scanWord 7 text = some (method, middle) ∧
      scanWord 127 middle = some (path, last) := by
  unfold scanRequestLine at scanned
  rcases first : scanWord 7 text with _ | ⟨word, middle⟩ <;> rw [first] at scanned
  · cases scanned
  · rcases second : scanWord 127 middle with _ | ⟨other, last⟩ <;>
      simp only [Option.bind_eq_bind, Option.bind_some, second] at scanned
    · cases scanned
    · cases scanned
      exact ⟨middle, last, rfl, second⟩

theorem scanRequestLine_of_words {text method middle path last : List UInt8}
    (first : scanWord 7 text = some (method, middle))
    (second : scanWord 127 middle = some (path, last)) :
    scanRequestLine text = some (method, path) := by
  simp only [scanRequestLine, first, Option.bind_eq_bind, Option.bind_some, second]
  rfl

/-- Both words are read the same when more follows a text that ends in white space. -/
theorem scanRequestLine_append {front : List UInt8} {last : UInt8} (space : isSpace last = true)
    {method path : List UInt8} (scanned : scanRequestLine (front ++ [last]) = some (method, path))
    (more : List UInt8) : scanRequestLine (front ++ [last] ++ more) = some (method, path) := by
  obtain ⟨middle, final, first, second⟩ := scanRequestLine_eq_some scanned
  obtain ⟨inner, rfl⟩ := scanWord_before_space space first
  obtain ⟨ending, rfl⟩ := scanWord_before_space space second
  have nonempty : ∀ items : List UInt8, items ++ [last] ≠ [] := fun items =>
    List.concat_ne_nil last items
  exact scanRequestLine_of_words (scanWord_append first (nonempty inner) more)
    (scanWord_append second (nonempty ending) more)

/-- A text with two words keeps having two words. -/
theorem isSome_scanRequestLine_append {text : List UInt8}
    (scanned : (scanRequestLine text).isSome) (more : List UInt8) :
    (scanRequestLine (text ++ more)).isSome := by
  obtain ⟨⟨method, path⟩, both⟩ := Option.isSome_iff_exists.mp scanned
  obtain ⟨middle, final, first, second⟩ := scanRequestLine_eq_some both
  have ended : middle ≠ [] := by
    rintro rfl
    cases second
  have further : (scanWord 127 (middle ++ more)).isSome := by
    have some := (isSome_scanWord (by omega : 0 < 127)).mp (Option.isSome_of_eq_some second)
    rw [isSome_scanWord (by omega), List.countP_append]
    omega
  obtain ⟨⟨other, last⟩, again⟩ := Option.isSome_iff_exists.mp further
  rw [scanRequestLine_of_words (scanWord_append first ended more) again]
  rfl

/-- Eight bytes other than white space make two words. -/
theorem isSome_scanRequestLine_of_count {text : List UInt8} (many : 8 ≤ text.countP isWordChar) :
    (scanRequestLine text).isSome := by
  have begins := (@isSome_scanWord 7 text (by omega)).mpr (by omega)
  obtain ⟨⟨method, middle⟩, first⟩ := Option.isSome_iff_exists.mp begins
  have remaining := countP_le_of_scanWord first
  have continues := (@isSome_scanWord 127 middle (by omega)).mpr (by omega)
  obtain ⟨⟨path, last⟩, second⟩ := Option.isSome_iff_exists.mp continues
  rw [scanRequestLine_of_words first second]
  rfl

/-- What stands behind `Content-Length:` in the first line that names it. -/
def lengthText (text : List UInt8) (headersEnd : Nat) : Option (List UInt8) :=
  (strstr crlf text).bind fun requestLine =>
    contentLengthValue (text.drop (requestLine + 2)) (headersEnd - (requestLine + 2))

/-- The body length: 0 if no line names it. -/
def lengthOf : Option (List UInt8) → Option Nat
  | none => some 0
  | some value => (strtoul value).map Prod.fst

theorem parseContentLength_eq {text : List UInt8} {headersEnd requestLine : Nat}
    (ended : strstr crlf text = some requestLine) :
    parseContentLength text headersEnd = lengthOf (lengthText text headersEnd) := by
  simp only [parseContentLength, lengthText, ended, Option.bind_some, strtoul_dropWhile]
  split <;> rename_i same <;> rw [same] <;> rfl

theorem crlf_ne_nil : crlf ≠ [] := nofun

theorem crlf_prefix_blankLine : crlf <+: blankLine := List.prefix_append crlf crlf

/-- Before the blank line there is always the end of a line, and behind it either
`headers_end` has been passed or the blank line is still to come. -/
theorem nextLine {line : List UInt8} {left : Nat} (blank : blankLine <+: line.drop left) :
    ∃ lineLen ≤ left, strstr crlf line = some lineLen ∧ lineLen + 2 ≤ line.length ∧
      (0 < left - (lineLen + 2) →
        blankLine <+: (line.drop (lineLen + 2)).drop (left - (lineLen + 2))) := by
  obtain ⟨lineLen, notLater, found⟩ :=
    strstr_of_occurs crlf_ne_nil (crlf_prefix_blankLine.trans blank)
  refine ⟨lineLen, notLater, found, strstr_le crlf_ne_nil found, fun further => ?_⟩
  rw [List.drop_drop, show lineLen + 2 + (left - (lineLen + 2)) = left by omega]
  exact blank

/-- One round of the loop. -/
theorem contentLengthValue_round {line : List UInt8} {left lineLen : Nat} (positive : 0 < left)
    (notLater : lineLen ≤ left) (found : strstr crlf line = some lineLen) :
    contentLengthValue line left =
      if lineLen = 0 then none
      else if 15 ≤ lineLen && strncasecmpEq line (ascii "Content-Length:") then
        some (line.drop 15)
      else contentLengthValue (line.drop (lineLen + 2)) (left - (lineLen + 2)) := by
  rw [contentLengthValue, if_neg positive.ne', found]
  simp only [decide_eq_false (Nat.not_lt.mpr notLater), Bool.false_or, beq_iff_eq]

theorem strncasecmpEq_append {text word : List UInt8} (long : word.length ≤ text.length)
    (more : List UInt8) : strncasecmpEq (text ++ more) word = strncasecmpEq text word := by
  rw [strncasecmpEq, strncasecmpEq, List.take_append_of_le_length long]

/-- Up to the blank line, the loop finds the same line when more follows. -/
theorem contentLengthValue_append {line : List UInt8} {left : Nat}
    (blank : 0 < left → blankLine <+: line.drop left) (more : List UInt8) :
    contentLengthValue (line ++ more) left = (contentLengthValue line left).map (· ++ more) := by
  induction left using Nat.strongRecOn generalizing line with
  | ind left ih =>
      rcases Nat.eq_zero_or_pos left with rfl | positive
      · rw [contentLengthValue, contentLengthValue]
        rfl
      · obtain ⟨lineLen, notLater, found, inside, further⟩ := nextLine (blank positive)
        rw [contentLengthValue_round positive notLater found, contentLengthValue_round positive
          notLater (strstr_append crlf_ne_nil found more)]
        by_cases empty : lineLen = 0
        · simp only [empty, ↓reduceIte, Option.map_none]
        · have later := ih _ (by omega) further
          rw [if_neg empty, if_neg empty, List.drop_append_of_le_length inside, later]
          by_cases long : 15 ≤ lineLen
          · rw [strncasecmpEq_append (by exact (by omega : 15 ≤ line.length)),
              List.drop_append_of_le_length (by omega)]
            split <;> rfl
          · simp only [decide_eq_false long, Bool.false_and, Bool.false_eq_true, ↓reduceIte]

/-- The value found stands behind fifteen bytes that are not white space. -/
theorem contentLengthValue_spec {line value : List UInt8} {left : Nat}
    (blank : 0 < left → blankLine <+: line.drop left)
    (found : contentLengthValue line left = some value) :
    value ≠ [] ∧ ∃ before name, line = before ++ (name ++ value) ∧ name.length = 15 ∧
      strcasecmpEq name (ascii "Content-Length:") = true := by
  induction left using Nat.strongRecOn generalizing line with
  | ind left ih =>
      rcases Nat.eq_zero_or_pos left with rfl | positive
      · rw [contentLengthValue] at found
        cases found
      · obtain ⟨lineLen, notLater, ended, inside, further⟩ := nextLine (blank positive)
        rw [contentLengthValue_round positive notLater ended] at found
        split at found
        · cases found
        · split at found
          · next named =>
              rw [Bool.and_eq_true, decide_eq_true_eq] at named
              cases found
              refine ⟨?_, [], line.take 15, (List.take_append_drop 15 line).symm, ?_, named.2⟩
              · apply List.ne_nil_of_length_pos
                rw [List.length_drop]
                omega
              · rw [List.length_take]
                omega
          · obtain ⟨nonempty, before, name, split, fifteen, named⟩ := ih _ (by omega) further found
            refine ⟨nonempty, line.take (lineLen + 2) ++ before, name, ?_, fifteen, named⟩
            rw [List.append_assoc, ← split, List.take_append_drop]

/-- The text is a header block: its blank line begins at `headersEnd` and ends it, and
there is none before. -/
structure HeaderBlock (block : List UInt8) (headersEnd : Nat) : Prop where
  found : strstr blankLine block = some headersEnd
  length : block.length = headersEnd + 4

namespace HeaderBlock

variable {block : List UInt8} {headersEnd : Nat}

/-- A header block ends in the blank line. -/
theorem split (header : HeaderBlock block headersEnd) :
    block = block.take headersEnd ++ blankLine := by
  obtain ⟨starts, _⟩ := (strstr_eq_some_iff (by exact nofun)).mp header.found
  have whole : block.drop headersEnd = blankLine := by
    refine (starts.eq_of_length ?_).symm
    rw [List.length_drop, header.length, Nat.add_sub_cancel_left]
    rfl
  rw [← whole, List.take_append_drop]

/-- A header block ends in white space. -/
theorem concat (header : HeaderBlock block headersEnd) : ∃ front, block = front ++ [lineFeed] :=
  ⟨block.take headersEnd ++ [carriageReturn, lineFeed, carriageReturn], by
    rw [List.append_assoc]
    exact header.split⟩

/-- The first line ends at the latest where the blank line begins. -/
theorem firstLine (header : HeaderBlock block headersEnd) :
    ∃ requestLine ≤ headersEnd, strstr crlf block = some requestLine ∧
      requestLine + 2 ≤ block.length ∧
      (0 < headersEnd - (requestLine + 2) →
        blankLine <+: (block.drop (requestLine + 2)).drop (headersEnd - (requestLine + 2))) :=
  nextLine ((strstr_eq_some_iff (by exact nofun)).mp header.found).1

/-- In a header block with more behind it, the same line names the body length. -/
theorem lengthText_append (header : HeaderBlock block headersEnd) (more : List UInt8) :
    lengthText (block ++ more) headersEnd = (lengthText block headersEnd).map (· ++ more) := by
  obtain ⟨requestLine, _, found, inside, further⟩ := header.firstLine
  simp only [lengthText, found, strstr_append crlf_ne_nil found more, Option.bind_some]
  rw [List.drop_append_of_le_length inside, contentLengthValue_append further]

/-- The value is a part of the block that ends with it. -/
theorem lengthText_spec (header : HeaderBlock block headersEnd) {value : List UInt8}
    (found : lengthText block headersEnd = some value) :
    value ≠ [] ∧ ∃ before name, block = before ++ (name ++ value) ∧ name.length = 15 ∧
      strcasecmpEq name (ascii "Content-Length:") = true := by
  obtain ⟨requestLine, _, ended, inside, further⟩ := header.firstLine
  simp only [lengthText, ended, Option.bind_some] at found
  obtain ⟨nonempty, before, name, split, fifteen, named⟩ := contentLengthValue_spec further found
  refine ⟨nonempty, block.take (requestLine + 2) ++ before, name, ?_, fifteen, named⟩
  rw [List.append_assoc, ← split, List.take_append_drop]

/-- The body length that is read when more follows the block. -/
theorem parseContentLength_append (header : HeaderBlock block headersEnd) (more : List UInt8) :
    parseContentLength (block ++ more) headersEnd =
      lengthOf ((lengthText block headersEnd).map (· ++ more)) := by
  obtain ⟨requestLine, _, found, _, _⟩ := header.firstLine
  rw [parseContentLength_eq (strstr_append crlf_ne_nil found more), header.lengthText_append]

end HeaderBlock

theorem isSpace_toLower (byte : UInt8) : isSpace (toLower byte) = isSpace byte := by
  grind [isSpace, toLower]

/-- A line that names the header makes two words. -/
theorem HeaderBlock.isSome_scanRequestLine {block value : List UInt8} {headersEnd : Nat}
    (header : HeaderBlock block headersEnd) (found : lengthText block headersEnd = some value) :
    (scanRequestLine block).isSome := by
  obtain ⟨_, before, name, split, _, named⟩ := header.lengthText_spec found
  apply isSome_scanRequestLine_of_count
  have chars : name.countP isWordChar = 15 := by
    have lowered : name.map toLower = (ascii "Content-Length:").map toLower := by
      simpa only [strcasecmpEq, beq_iff_eq] using named
    calc name.countP isWordChar = (name.map toLower).countP isWordChar := by
          rw [List.countP_map]
          exact List.countP_congr fun byte _ => by
            simp only [Function.comp_apply, isWordChar, isSpace_toLower]
      _ = 15 := by rw [lowered]; decide
  rw [split, List.countP_append, List.countP_append, chars]
  omega

end MiniDbms.Http
