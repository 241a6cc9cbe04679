import MiniDbms.Foundation.CText
import MiniDbms.Foundation.FlatJson

/-! # The text of flat JSON objects

An object whose values are strings, numbers and literals, as it may be spelled: every
character of a string with its escape, and the blanks between the tokens. The pieces
carry the proof that they are well spelled.

A search for a key in the text of an object finds the strings that look like it
(`MiniDbms.Foundation.behind_quoted`): those that are spelled like the key, and those that
end with an escaped quote and the key.
-/

namespace MiniDbms.Foundation

/-- A character of a string, as it is spelled. -/
inductive JsonChar where
  | plain (byte : UInt8) (allowed : 32 ≤ byte ∧ byte ≠ 34 ∧ byte ≠ 92)
  | escape (letter : UInt8) (known : (simpleEscape letter).isSome)
  | unicode (digits : List UInt8) (four : digits.length = 4)
      (hex : ∀ digit ∈ digits, (hexValue digit).isSome)
  deriving DecidableEq

def JsonChar.spelling : JsonChar → List UInt8
  | .plain byte _ => [byte]
  | .escape letter _ => [92, letter]
  | .unicode digits _ _ => 92 :: 117 :: digits

abbrev JsonString : Type := List JsonChar

/-- A string without its quotes. -/
def spell (string : JsonString) : List UInt8 := string.flatMap JsonChar.spelling

@[simp] theorem spell_cons (character : JsonChar) (string : JsonString) :
    spell (character :: string) = character.spelling ++ spell string :=
  List.flatMap_cons

/-- A string with its quotes. -/
def quoted (string : JsonString) : List UInt8 := 34 :: (spell string ++ [34])

/-- The byte that four hexadecimal digits give. -/
def byteOfHex (a b c d : UInt8) : Option UInt8 := do
  let a ← hexValue a
  let b ← hexValue b
  let c ← hexValue c
  let d ← hexValue d
  let code := 4096 * a + 256 * b + 16 * c + d
  if code < 256 then return UInt8.ofNat code else none

/-- A string of bytes behind its opening quote, up to the closing quote that ends the text;
`\u` gives a byte. -/
def readByteString : List UInt8 → Option (List UInt8)
  | [] => none
  | byte :: text =>
      if byte = 34 then if text = [] then some [] else none
      else if byte = 92 then
        match text with
        | [] => none
        | letter :: text =>
            if letter = 117 then
              match text with
              | a :: b :: c :: d :: text =>
                  (byteOfHex a b c d).bind fun meant => (readByteString text).map (meant :: ·)
              | _ => none
            else (simpleEscape letter).bind fun meant => (readByteString text).map (meant :: ·)
      else if byte < 32 then none
      else (readByteString text).map (byte :: ·)

/-- Whether there is a quote that no backslash escapes. -/
def hasUnescapedQuote : List UInt8 → Bool
  | [] => false
  | byte :: text =>
      if byte = 92 then
        match text with
        | [] => false
        | _ :: text => hasUnescapedQuote text
      else byte = 34 || hasUnescapedQuote text

/-- White space between tokens. -/
abbrev Blanks : Type := { bytes : List UInt8 // ∀ byte ∈ bytes, isBlank byte = true }

def noBlanks : Blanks := ⟨[], List.forall_mem_nil _⟩

/-- At least one digit. -/
abbrev Digits : Type :=
  { digits : List UInt8 // digits ≠ [] ∧ ∀ digit ∈ digits, isDigit digit = true }

/-- What may stand before the digits of an exponent. -/
def exponentMarks : List (List UInt8) :=
  [ascii "e", ascii "E", ascii "e+", ascii "E+", ascii "e-", ascii "E-"]

structure JsonNumber where
  negative : Bool
  whole : Digits
  noLeadingZero : whole.1.head? = some 48 → whole.1.length = 1
  fraction : Option Digits
  exponent : Option ({ mark // mark ∈ exponentMarks } × Digits)

def JsonNumber.text (number : JsonNumber) : List UInt8 :=
  (if number.negative then [minusSign] else []) ++ number.whole.1 ++
    number.fraction.elim [] (fun digits => 46 :: digits.1) ++
    number.exponent.elim [] (fun exponent => exponent.1.1 ++ exponent.2.1)

inductive JsonValue where
  | string (characters : JsonString)
  | number (value : JsonNumber)
  | truth (value : Bool)
  | null

def JsonValue.text : JsonValue → List UInt8
  | .string characters => quoted characters
  | .number value => value.text
  | .truth true => ascii "true"
  | .truth false => ascii "false"
  | .null => ascii "null"

/-- The characters of a string. -/
def JsonValue.string? : JsonValue → Option JsonString
  | .string characters => some characters
  | _ => none

structure JsonMember where
  beforeKey : Blanks
  key : JsonString
  beforeColon : Blanks
  beforeValue : Blanks
  value : JsonValue
  afterValue : Blanks

/-- A member without blanks. -/
def JsonMember.compact (key : JsonString) (value : JsonValue) : JsonMember where
  beforeKey := noBlanks
  key := key
  beforeColon := noBlanks
  beforeValue := noBlanks
  value := value
  afterValue := noBlanks

/-- What follows the key of a member. -/
def JsonMember.behindKey (member : JsonMember) : List UInt8 :=
  member.beforeColon.1 ++ 58 :: (member.beforeValue.1 ++ (member.value.text ++ member.afterValue.1))

def JsonMember.text (member : JsonMember) : List UInt8 :=
  member.beforeKey.1 ++ (quoted member.key ++ member.behindKey)

/-- The members with commas between them. -/
def membersText : List JsonMember → List UInt8
  | [] => []
  | [member] => member.text
  | member :: members => member.text ++ 44 :: membersText members

structure JsonText where
  before : Blanks
  members : List JsonMember
  after : Blanks

/-- The object with the blanks around it. -/
def JsonText.text (object : JsonText) : List UInt8 :=
  object.before.1 ++ 123 :: (membersText object.members ++ 125 :: object.after.1)

theorem isSpace_of_isBlank {byte : UInt8} (blank : isBlank byte = true) : isSpace byte = true := by
  grind [isBlank, isSpace]

theorem quote_not_mem_blanks (blanks : Blanks) : 34 ∉ blanks.1 :=
  fun member => absurd (blanks.2 34 member) (by decide)

theorem quote_not_mem_digits (digits : Digits) : 34 ∉ digits.1 :=
  fun member => absurd (digits.2.2 34 member) (by decide)

theorem dropWhile_blanks (blanks : Blanks) (text : List UInt8) :
    (blanks.1 ++ text).dropWhile isSpace = text.dropWhile isSpace :=
  List.dropWhile_append_of_pos fun byte member => isSpace_of_isBlank (blanks.2 byte member)

/-- A number has no quotes. -/
theorem quote_not_mem_number (number : JsonNumber) : 34 ∉ number.text := by
  simp only [JsonNumber.text, List.mem_append, not_or]
  refine ⟨⟨⟨?_, quote_not_mem_digits number.whole⟩, ?_⟩, ?_⟩
  · cases number.negative <;> decide
  · rcases number.fraction with _ | digits
    · exact List.not_mem_nil
    · rw [Option.elim_some, List.mem_cons, not_or]
      exact ⟨nofun, quote_not_mem_digits digits⟩
  · rcases number.exponent with _ | ⟨⟨mark, known⟩, digits⟩
    · exact List.not_mem_nil
    · rw [Option.elim_some, List.mem_append, not_or]
      have noQuote : ∀ mark ∈ exponentMarks, 34 ∉ mark := by decide
      exact ⟨noQuote mark known, quote_not_mem_digits digits⟩

/-- A number begins with a digit or a minus sign. -/
theorem number_begins (number : JsonNumber) :
    ∃ lead others, number.text = lead :: others ∧ isSpace lead = false ∧ lead ≠ 34 := by
  obtain ⟨lead, others, whole⟩ := List.exists_cons_of_ne_nil number.whole.2.1
  have digit : isDigit lead = true := by
    apply number.whole.2.2
    rw [whole]
    exact List.mem_cons_self
  simp only [JsonNumber.text]
  rcases number.negative with _ | _
  · simp only [Bool.false_eq_true, ↓reduceIte, List.nil_append, whole, List.cons_append]
    refine ⟨lead, _, rfl, (isDigit_plain digit).1, ?_⟩
    rintro rfl
    cases digit
  · simp only [↓reduceIte, List.cons_append]
    exact ⟨minusSign, _, rfl, rfl, nofun⟩

/-- What stands behind the first occurrence of the word. -/
def behind (word text : List UInt8) : Option (List UInt8) :=
  (strstr word text).map fun offset => text.drop (offset + word.length)

/-- What is behind a word that stands here. -/
theorem behind_here {word : List UInt8} (nonempty : word ≠ []) (text : List UInt8) :
    behind word (word ++ text) = some text := by
  have found : strstr word (word ++ text) = some 0 :=
    (strstr_eq_some_iff nonempty).mpr ⟨List.prefix_append word text, nofun⟩
  rw [behind, found, Option.map_some, Nat.zero_add, List.drop_left]

/-- What is behind a word that stands further on. -/
theorem behind_cons {word : List UInt8} {byte : UInt8} {text : List UInt8}
    (absent : ¬ word <+: byte :: text) : behind word (byte :: text) = behind word text := by
  rw [behind, strstr, if_neg fun starts => absent (List.isPrefixOf_iff_prefix.mp starts),
    Option.map_map, behind]
  congr 1
  funext offset
  change (byte :: text).drop (offset + 1 + word.length) = _
  rw [Nat.add_right_comm, List.drop_succ_cons]

/-- A stretch without the first byte of the word is skipped. -/
theorem behind_skip {lead : UInt8} {others before : List UInt8} (absent : lead ∉ before)
    (text : List UInt8) :
    behind (lead :: others) (before ++ text) = behind (lead :: others) text := by
  induction before with
  | nil => rfl
  | cons byte before ih =>
      obtain ⟨different, later⟩ := not_or.mp (List.mem_cons.not.mp absent)
      rw [List.cons_append, behind_cons fun starts => different (List.cons_prefix_cons.mp starts).1]
      exact ih later

/-- A key with its quotes. -/
def keyText (key : List UInt8) : List UInt8 := 34 :: (key ++ [34])

/-- The string ends with an escaped quote and the key. -/
def endsLikeKey (key : List UInt8) : JsonString → Bool
  | [] => false
  | character :: string =>
      (character.spelling == [92, 34] && spell string == key) || endsLikeKey key string

/-- The key with its quotes occurs in the text of the string. -/
def looksLikeKey (key : List UInt8) (string : JsonString) : Bool :=
  spell string == key || endsLikeKey key string

section Search

variable {key : List UInt8} (letters : ∀ byte ∈ key, isAlpha byte = true) (nonempty : key ≠ [])

/-- A letter is no quote and no backslash. -/
theorem isAlpha_plain {byte : UInt8} (letter : isAlpha byte = true) : byte ≠ 34 ∧ byte ≠ 92 := by
  grind [isAlpha]

include letters in
/-- A string that continues with the key and a quote is the key. -/
theorem key_prefix_spell (string : JsonString) (rest : List UInt8) :
    key ++ [34] <+: spell string ++ 34 :: rest ↔ spell string = key := by
  induction key generalizing string with
  | nil =>
      rcases string with _ | ⟨character, string⟩
      · exact iff_of_true (List.cons_prefix_cons.mpr ⟨rfl, List.nil_prefix⟩) rfl
      · rw [spell_cons]
        rcases character with ⟨byte, allowed⟩ | ⟨letter, known⟩ | ⟨digits, four, hex⟩
        · refine iff_of_false (fun starts => ?_) nofun
          exact allowed.2.1 (List.cons_prefix_cons.mp starts).1.symm
        · exact iff_of_false (fun starts => absurd (List.cons_prefix_cons.mp starts).1 nofun) nofun
        · exact iff_of_false (fun starts => absurd (List.cons_prefix_cons.mp starts).1 nofun) nofun
  | cons lead key ih =>
      obtain ⟨notQuote, notEscape⟩ := isAlpha_plain (letters lead List.mem_cons_self)
      rcases string with _ | ⟨character, string⟩
      · refine iff_of_false (fun starts => ?_) nofun
        exact notQuote (List.cons_prefix_cons.mp starts).1
      · rw [spell_cons]
        rcases character with ⟨byte, allowed⟩ | ⟨letter, known⟩ | ⟨digits, four, hex⟩
        · have further :=
            ih (fun byte member => letters byte (List.mem_cons_of_mem _ member)) string
          simp only [JsonChar.spelling, List.cons_append, List.nil_append, List.cons_prefix_cons,
            List.cons.injEq, further, eq_comm]
        · refine iff_of_false (fun starts => ?_) fun same => ?_
          · exact notEscape (List.cons_prefix_cons.mp starts).1
          · exact notEscape (List.cons.inj same).1.symm
        · refine iff_of_false (fun starts => ?_) fun same => ?_
          · exact notEscape (List.cons_prefix_cons.mp starts).1
          · exact notEscape (List.cons.inj same).1.symm

include letters nonempty in
/-- The quote behind a string does not begin a key. -/
theorem behind_closing {rest : List UInt8} (stop : ∀ byte ∈ rest.head?, isAlpha byte = false) :
    behind (keyText key) (34 :: rest) = behind (keyText key) rest := by
  apply behind_cons
  intro starts
  obtain ⟨lead, others, rfl⟩ := List.exists_cons_of_ne_nil nonempty
  obtain ⟨more, same⟩ := (List.cons_prefix_cons.mp starts).2
  have letter := letters lead List.mem_cons_self
  rw [← same] at stop
  rw [stop lead rfl] at letter
  cases letter

include letters in
/-- The key is found at the quote before it. -/
theorem behind_quote (string : JsonString) (rest : List UInt8) :
    behind (keyText key) (34 :: (spell string ++ 34 :: rest)) =
      if spell string == key then some rest
      else behind (keyText key) (spell string ++ 34 :: rest) := by
  by_cases same : spell string = key
  · have here := behind_here (List.cons_ne_nil 34 (key ++ [34])) rest
    rw [List.cons_append, List.append_assoc] at here
    rw [same, beq_self_eq_true, if_pos rfl]
    exact here
  · rw [beq_eq_false_iff_ne.mpr same, if_neg Bool.false_ne_true]
    apply behind_cons
    intro starts
    exact same ((key_prefix_spell letters string rest).mp (List.cons_prefix_cons.mp starts).2)

include letters nonempty in
/-- Of a spelled string, only its end can be taken for the key. -/
theorem behind_spell (string : JsonString) {rest : List UInt8}
    (stop : ∀ byte ∈ rest.head?, isAlpha byte = false) :
    behind (keyText key) (spell string ++ 34 :: rest) =
      if endsLikeKey key string then some rest else behind (keyText key) rest := by
  induction string with
  | nil => exact behind_closing letters nonempty stop
  | cons character string ih =>
      rw [endsLikeKey, spell_cons, List.append_assoc]
      rcases character with ⟨byte, allowed⟩ | ⟨letter, known⟩ | ⟨digits, four, hex⟩
      · have different : ([byte] == [92, 34]) = false := by
          rw [beq_eq_false_iff_ne]
          exact fun same => nomatch (List.cons.inj same).2
        rw [JsonChar.spelling, different, Bool.false_and, Bool.false_or, ← ih]
        apply behind_skip
        rw [List.mem_singleton]
        exact allowed.2.1.symm
      · by_cases quote : letter = 34
        · subst quote
          have skipped : behind (keyText key) ([92, 34] ++ (spell string ++ 34 :: rest)) =
              behind (keyText key) (34 :: (spell string ++ 34 :: rest)) :=
            behind_cons fun starts => absurd (List.cons_prefix_cons.mp starts).1 nofun
          rw [JsonChar.spelling, beq_self_eq_true, Bool.true_and, skipped, behind_quote letters, ih]
          cases spell string == key <;> rfl
        · have different : ([92, letter] == [92, 34]) = false := by
            rw [beq_eq_false_iff_ne]
            exact fun same => quote (List.cons.inj (List.cons.inj same).2).1
          rw [JsonChar.spelling, different, Bool.false_and, Bool.false_or, ← ih]
          apply behind_skip
          simp only [List.mem_cons, List.not_mem_nil, or_false, not_or]
          exact ⟨nofun, fun same => quote same.symm⟩
      · have different : (92 :: 117 :: digits == [92, 34]) = false := by
          rw [beq_eq_false_iff_ne]
          exact fun same => absurd (List.cons.inj (List.cons.inj same).2).1 nofun
        rw [JsonChar.spelling, different, Bool.false_and, Bool.false_or, ← ih]
        apply behind_skip
        simp only [List.mem_cons, not_or]
        refine ⟨nofun, nofun, fun member => ?_⟩
        exact absurd (hex 34 member) (by decide)

include letters nonempty in
/-- In a string with its quotes, a key is found if the string looks like it. -/
theorem behind_quoted (string : JsonString) {rest : List UInt8}
    (stop : ∀ byte ∈ rest.head?, isAlpha byte = false) :
    behind (keyText key) (quoted string ++ rest) =
      if looksLikeKey key string then some rest else behind (keyText key) rest := by
  rw [quoted, List.cons_append, List.append_assoc, List.singleton_append, looksLikeKey,
    behind_quote letters, behind_spell letters nonempty string stop]
  cases spell string == key <;> rfl

/-- Blanks and punctuation do not continue a key. -/
theorem noAlpha_first (blanks : Blanks) {stop : UInt8} (punctuation : isAlpha stop = false)
    (more : List UInt8) : ∀ byte ∈ (blanks.1 ++ stop :: more).head?, isAlpha byte = false := by
  obtain ⟨bytes, blank⟩ := blanks
  rcases bytes with _ | ⟨lead, others⟩
  · rintro _ ⟨⟩
    exact punctuation
  · rintro _ ⟨⟩
    have space := blank lead List.mem_cons_self
    grind [isBlank, isAlpha]

include letters nonempty in
/-- In a value, a key is found if it is a string that looks like it. -/
theorem behind_value (value : JsonValue) {rest : List UInt8}
    (stop : ∀ byte ∈ rest.head?, isAlpha byte = false) :
    behind (keyText key) (value.text ++ rest) =
      if value.string?.any (looksLikeKey key) then some rest else behind (keyText key) rest := by
  rcases value with characters | number | _ | _
  · exact behind_quoted letters nonempty characters stop
  · exact behind_skip (quote_not_mem_number number) rest
  · rename_i truth
    cases truth
    · exact @behind_skip 34 _ (ascii "false") (by decide) rest
    · exact @behind_skip 34 _ (ascii "true") (by decide) rest
  · exact @behind_skip 34 _ (ascii "null") (by decide) rest

include letters nonempty in
/-- In a member, a key is found if its key or its value looks like it. -/
theorem behind_member (member : JsonMember) {stop : UInt8} (punctuation : isAlpha stop = false)
    (more : List UInt8) :
    behind (keyText key) (member.text ++ stop :: more) =
      if looksLikeKey key member.key then some (member.behindKey ++ stop :: more)
      else if member.value.string?.any (looksLikeKey key) then
        some (member.afterValue.1 ++ stop :: more)
      else behind (keyText key) (stop :: more) := by
  have behindValue : behind (keyText key) (member.behindKey ++ stop :: more) =
      if member.value.string?.any (looksLikeKey key) then
        some (member.afterValue.1 ++ stop :: more)
      else behind (keyText key) (stop :: more) := by
    have skipped : 34 ∉ member.beforeColon.1 ++ (58 :: member.beforeValue.1) := by
      rw [List.mem_append, List.mem_cons, not_or, not_or]
      exact ⟨quote_not_mem_blanks _, nofun, quote_not_mem_blanks _⟩
    have split : member.behindKey ++ stop :: more =
        (member.beforeColon.1 ++ (58 :: member.beforeValue.1)) ++
          (member.value.text ++ (member.afterValue.1 ++ stop :: more)) := by
      simp only [JsonMember.behindKey, List.append_assoc, List.cons_append]
    rw [split, keyText, behind_skip skipped, ← keyText, behind_value letters nonempty _
      (noAlpha_first member.afterValue punctuation more), keyText,
      behind_skip (quote_not_mem_blanks member.afterValue)]
  rw [JsonMember.text, List.append_assoc, List.append_assoc, keyText,
    behind_skip (quote_not_mem_blanks member.beforeKey), ← keyText,
    behind_quoted letters nonempty, behindValue]
  rw [JsonMember.behindKey, List.append_assoc]
  exact @noAlpha_first member.beforeColon 58 rfl _

end Search

end MiniDbms.Foundation
