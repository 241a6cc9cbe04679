import MiniDbms.Foundation.Lexemes
import MiniDbms.Sql.Parse

/-! # Tokens of the SQL parser

How the tokens of a statement are written, and that `read_word`, `expect_keyword`,
`expect_symbol`, `parse_int_value`, `parse_string_literal` and `at_statement_end` read
exactly these tokens.
-/

namespace MiniDbms.Sql

open Foundation Db

/-- The words of the language. -/
inductive Keyword where
  | insert
  | into
  | values
  | select
  | from
  | where
  | users
  | id
  | name
  | age
  deriving DecidableEq

def Keyword.text : Keyword → List UInt8
  | .insert => ascii "INSERT"
  | .into => ascii "INTO"
  | .values => ascii "VALUES"
  | .select => ascii "SELECT"
  | .from => ascii "FROM"
  | .where => ascii "WHERE"
  | .users => ascii "users"
  | .id => ascii "id"
  | .name => ascii "name"
  | .age => ascii "age"

/-- Every word fits the buffers it is read into. -/
theorem Keyword.length_text_le (keyword : Keyword) : keyword.text.length ≤ 31 := by
  cases keyword <;> decide

theorem Keyword.eq_of_toLower {keyword other : Keyword}
    (same : keyword.text.map toLower = other.text.map toLower) : keyword = other := by
  revert same
  cases keyword <;> cases other <;> decide

inductive Token where
  /-- A word, which may be written in any case. -/
  | word (keyword : Keyword)
  | symbol (byte : UInt8)
  | literal (text : Name)
  | number (value : Int32)

/-- A run of letters, digits and underscores that does not start with a digit. -/
structure IsWord (spelling : List UInt8) : Prop where
  starts : ∃ byte ∈ spelling.head?, isWordStart byte = true
  continues : ∀ byte ∈ spelling, isWordByte byte = true

/-- A decimal token, of a value that is an `int` and not negative. -/
def IsNumber (spelling : List UInt8) (value : Int32) : Prop :=
  ∃ sign ∈ signs, ∃ digits, digits ≠ [] ∧ (∀ byte ∈ digits, isDigit byte = true) ∧
    spelling = sign.1 ++ digits ∧ 0 ≤ signedValue sign.2 digits ∧
    signedValue sign.2 digits ≤ 2147483647 ∧ value = Int32.ofInt (signedValue sign.2 digits)

/-- No letter, digit or underscore follows directly. -/
def NoWordFirst (text : List UInt8) : Prop := ∀ byte ∈ text.head?, isWordByte byte = false

/-- How tokens are written. -/
def sqlLexis : Lexis UInt8 Token where
  blank := isSpace
  spelled
    | .word keyword, spelling => IsWord spelling ∧ strcasecmpEq spelling keyword.text = true
    | .symbol byte, spelling => spelling = [byte]
    | .literal text, spelling => quote ∉ text.bytes ∧ spelling = quote :: (text.bytes ++ [quote])
    | .number value, spelling => IsNumber spelling value
  ends
    | .word _, rest => NoWordFirst rest
    | .symbol _, _ => True
    | .literal _, _ => True
    | .number _, rest => NoDigitFirst rest

section Lexical

variable {text rest : List UInt8} {limit : Nat}

theorem isWordByte_of_start {byte : UInt8} (starts : isWordStart byte = true) :
    isWordByte byte = true ∧ isSpace byte = false := by
  grind [isWordStart, isWordByte, isAlnum, isAlpha, isSpace]

/-- A word is read behind the white space and up to its end, if it is short enough. -/
theorem readWord_eq_some_iff {word : BoundedString limit} :
    readWord limit text = some (word, rest) ↔
      IsWord word.bytes ∧ NoWordFirst rest ∧ skipWs text = word.bytes ++ rest := by
  constructor
  · intro read
    simp only [readWord] at read
    split at read
    · cases read
    · next starts =>
        split at read
        · cases read
          refine ⟨⟨?_, fun _ => List.mem_takeWhile_imp⟩, dropWhile_stops isWordByte _,
            (List.takeWhile_append_dropWhile).symm⟩
          change ∃ byte ∈ ((skipWs text).takeWhile isWordByte).head?, _
          cases cur : skipWs text with
          | nil =>
              rw [cur] at starts
              exact absurd rfl starts
          | cons lead more =>
              rw [cur] at starts
              have start : isWordStart lead = true := by simpa using starts
              refine ⟨lead, ?_, start⟩
              rw [List.takeWhile_cons_of_pos (isWordByte_of_start start).1]
              rfl
        · cases read
  · rintro ⟨isWord, stop, same⟩
    obtain ⟨lead, first, starts⟩ := isWord.starts
    obtain ⟨more, cons⟩ := List.head?_eq_some_iff.mp first
    have run := takeWhile_run isWord.continues stop
    have after := dropWhile_run isWord.continues stop
    have head : (word.bytes ++ rest).headD 0 = lead := by
      rw [cons]
      rfl
    simp only [readWord, same, run, after, head, starts, Bool.not_true, Bool.false_eq_true,
      ↓reduceIte, word.fits, ↓reduceDIte]

/-- A keyword does not begin with white space. -/
theorem word_starts (keyword : Keyword) :
    ∀ spelling, sqlLexis.spelled (.word keyword) spelling →
      ∃ byte ∈ spelling.head?, sqlLexis.blank byte = false := by
  rintro spelling ⟨isWord, _⟩
  obtain ⟨lead, first, start⟩ := isWord.starts
  exact ⟨lead, first, (isWordByte_of_start start).2⟩

/-- What a text begins with when a word comes first. -/
theorem skipWs_of_word {keyword : Keyword} (lexeme : sqlLexis.Lexeme (.word keyword) text rest) :
    ∃ lead more, skipWs text = lead :: more ∧ isWordStart lead = true := by
  obtain ⟨spelling, ⟨isWord, _⟩, _, split⟩ := (Lexis.lexeme_iff (word_starts keyword)).mp lexeme
  obtain ⟨lead, first, start⟩ := isWord.starts
  obtain ⟨more, rfl⟩ := List.head?_eq_some_iff.mp first
  exact ⟨lead, more ++ rest, split, start⟩

/-- Comparing as many bytes as the word has. -/
theorem strncasecmpEq_of_word {keyword : Keyword} (other : Keyword)
    (length : other.text.length = keyword.text.length)
    (lexeme : sqlLexis.Lexeme (.word keyword) text rest) :
    strncasecmpEq (skipWs text) other.text = decide (keyword = other) := by
  obtain ⟨spelling, ⟨_, isName⟩, _, split⟩ := (Lexis.lexeme_iff (word_starts keyword)).mp lexeme
  have same : spelling.map toLower = keyword.text.map toLower := eq_of_beq isName
  have fits : spelling.length = other.text.length := by
    have lengths := congrArg List.length same
    rwa [List.length_map, List.length_map, ← length] at lengths
  have whole : skipWs text = spelling ++ rest := split
  rw [strncasecmpEq, whole, ← fits, List.take_left, strcasecmpEq, same, Bool.eq_iff_iff, beq_iff_eq,
    decide_eq_true_eq]
  exact ⟨Keyword.eq_of_toLower, fun equal => equal ▸ rfl⟩

/-- Whether a word in the buffer is a keyword. -/
theorem readWord_keyword_iff {limit : Nat} (fits : 31 ≤ limit) (keyword : Keyword) :
    (∃ word, readWord limit text = some (word, rest) ∧
        strcasecmpEq word.bytes keyword.text = true) ↔
      sqlLexis.Lexeme (.word keyword) text rest := by
  rw [Lexis.lexeme_iff (word_starts keyword)]
  constructor
  · rintro ⟨word, read, same⟩
    obtain ⟨isWord, stop, split⟩ := readWord_eq_some_iff.mp read
    exact ⟨word.bytes, ⟨isWord, same⟩, stop, split⟩
  · rintro ⟨spelling, ⟨isWord, same⟩, stop, split⟩
    have length : spelling.length = keyword.text.length := by
      have lengths := congrArg List.length (eq_of_beq same)
      rwa [List.length_map, List.length_map] at lengths
    have noNul : 0 ∉ spelling := fun member => by
      cases isWord.continues 0 member
    refine ⟨{ bytes := spelling, noNul := noNul, fits := ?_ }, ?_, same⟩
    · exact length ▸ keyword.length_text_le.trans fits
    · exact readWord_eq_some_iff.mpr ⟨isWord, stop, split⟩

/-- A keyword is read in any letter case. -/
theorem expectKeyword_eq_some_iff (keyword : Keyword) :
    expectKeyword keyword.text text = some rest ↔ sqlLexis.Lexeme (.word keyword) text rest := by
  rw [← readWord_keyword_iff (Nat.le_add_right 31 32) keyword, expectKeyword, Option.bind_eq_bind,
    Option.bind_eq_some_iff]
  constructor
  · rintro ⟨⟨word, middle⟩, read, same⟩
    dsimp only at same
    split at same
    · next isName =>
        cases same
        exact ⟨word, read, isName⟩
    · cases same
  · rintro ⟨word, read, same⟩
    exact ⟨(word, rest), read, if_pos same⟩

/-- Only one word can be read from a text. -/
theorem word_unique {keyword other : Keyword} {rest' : List UInt8}
    (lexeme : sqlLexis.Lexeme (.word keyword) text rest)
    (lexeme' : sqlLexis.Lexeme (.word other) text rest') : keyword = other := by
  obtain ⟨word, read, same⟩ := (readWord_keyword_iff (Nat.le_refl 31) keyword).mpr lexeme
  obtain ⟨word', read', same'⟩ := (readWord_keyword_iff (Nat.le_refl 31) other).mpr lexeme'
  cases read.symm.trans read'
  exact Keyword.eq_of_toLower ((eq_of_beq same).symm.trans (eq_of_beq same'))

/-- A symbol is read behind white space. -/
theorem expectSymbol_eq_some_iff {symbol : UInt8} (noBlank : isSpace symbol = false) :
    expectSymbol symbol text = some rest ↔ sqlLexis.Lexeme (.symbol symbol) text rest := by
  have starts : ∀ spelling, sqlLexis.spelled (.symbol symbol) spelling →
      ∃ byte ∈ spelling.head?, sqlLexis.blank byte = false := by
    rintro _ rfl
    exact ⟨symbol, rfl, noBlank⟩
  rw [Lexis.lexeme_iff starts, expectSymbol]
  change _ ↔ ∃ spelling, spelling = [symbol] ∧ True ∧ skipWs text = spelling ++ rest
  simp only [true_and, exists_eq_left, List.singleton_append]
  cases skipWs text with
  | nil => exact iff_of_false nofun nofun
  | cons first more =>
      dsimp only
      rw [List.cons.injEq]
      split
      · next same =>
          exact ⟨fun read => ⟨same, Option.some.inj read⟩, fun both => congrArg some both.2⟩
      · next different => exact iff_of_false nofun fun both => different both.1

/-- A word is not a symbol. -/
theorem expectSymbol_eq_none (symbol : UInt8) (notWord : isWordByte symbol = false)
    {keyword : Keyword} (lexeme : sqlLexis.Lexeme (.word keyword) text rest) :
    expectSymbol symbol text = none := by
  obtain ⟨lead, more, split, start⟩ := skipWs_of_word lexeme
  rw [expectSymbol, split]
  refine if_neg ?_
  rintro rfl
  exact absurd (isWordByte_of_start start).1 (by rw [notWord]; exact Bool.false_ne_true)

/-- A number with a sign does not begin with white space. -/
theorem noBlank_of_sign {sign : List UInt8 × Bool} (member : sign ∈ signs) {digits : List UInt8}
    (nonempty : digits ≠ []) (all : ∀ byte ∈ digits, isDigit byte = true) :
    ∃ byte ∈ (sign.1 ++ digits).head?, isSpace byte = false := by
  obtain ⟨lead, more, rfl⟩ := List.exists_cons_of_ne_nil nonempty
  simp only [signs, List.mem_cons, List.not_mem_nil, or_false] at member
  rcases member with rfl | rfl | rfl
  · exact ⟨lead, rfl, (isDigit_plain (all lead List.mem_cons_self)).1⟩
  · exact ⟨plusSign, rfl, rfl⟩
  · exact ⟨minusSign, rfl, rfl⟩

theorem clampLong_of_bounds {value : Int} (nonneg : 0 ≤ clampLong value)
    (small : clampLong value ≤ 2147483647) : clampLong value = value := by
  unfold clampLong at *
  omega

/-- A number is read if it is one of the grammar. -/
theorem parseIntValue_eq_some_iff {value : Int32} :
    parseIntValue text = some (value, rest) ↔ sqlLexis.Lexeme (.number value) text rest := by
  have starts : ∀ spelling, sqlLexis.spelled (.number value) spelling →
      ∃ byte ∈ spelling.head?, sqlLexis.blank byte = false := by
    rintro _ ⟨sign, member, digits, nonempty, all, rfl, _⟩
    exact noBlank_of_sign member nonempty all
  rw [Lexis.lexeme_iff starts]
  change _ ↔ ∃ spelling, IsNumber spelling value ∧ NoDigitFirst rest ∧
    skipWs text = spelling ++ rest
  have noBlank : ∀ byte ∈ (skipWs text).head?, isSpace byte = false := dropWhile_stops isSpace text
  simp only [parseIntValue]
  constructor
  · intro read
    split at read
    · cases read
    · split at read
      · cases read
      · next long after converted =>
          obtain ⟨sign, member, digits, nonempty, all, stop, split, rfl⟩ :=
            (strtol_eq_some_iff noBlank).mp converted
          split at read
          · cases read
          · next bounds =>
              cases read
              have same : clampLong (signedValue sign.2 digits) = signedValue sign.2 digits :=
                clampLong_of_bounds (by omega) (by omega)
              rw [same] at bounds ⊢
              refine ⟨sign.1 ++ digits, ⟨sign, member, digits, nonempty, all, rfl,
                by omega, by omega, rfl⟩, stop, ?_⟩
              rw [split, List.append_assoc]
  · rintro ⟨_, ⟨sign, member, digits, nonempty, all, rfl, nonneg, small, rfl⟩, stop, split⟩
    rw [List.append_assoc] at split
    have converted := (strtol_eq_some_iff noBlank).mpr
      ⟨sign, member, digits, nonempty, all, stop, split, rfl⟩
    have same : clampLong (signedValue sign.2 digits) = signedValue sign.2 digits := by
      unfold clampLong
      omega
    have present : skipWs text ≠ [] := by
      rw [split]
      exact List.append_ne_nil_of_right_ne_nil _ (List.append_ne_nil_of_left_ne_nil nonempty _)
    rw [if_neg present, converted, same]
    exact if_neg (by omega)

/-- A literal ends at the next quote. -/
theorem lexeme_literal_iff {name : Name} :
    sqlLexis.Lexeme (.literal name) text rest ↔
      quote ∉ name.bytes ∧ expectSymbol quote text = some (name.bytes ++ quote :: rest) := by
  have starts : ∀ spelling, sqlLexis.spelled (.literal name) spelling →
      ∃ byte ∈ spelling.head?, sqlLexis.blank byte = false := by
    rintro _ ⟨_, rfl⟩
    exact ⟨quote, rfl, rfl⟩
  have starts' : ∀ spelling, sqlLexis.spelled (.symbol quote) spelling →
      ∃ byte ∈ spelling.head?, sqlLexis.blank byte = false := by
    rintro _ rfl
    exact ⟨quote, rfl, rfl⟩
  rw [expectSymbol_eq_some_iff rfl, Lexis.lexeme_iff starts, Lexis.lexeme_iff starts']
  constructor
  · rintro ⟨_, ⟨noQuote, rfl⟩, _, split⟩
    refine ⟨noQuote, [quote], rfl, trivial, ?_⟩
    rw [split, List.cons_append, List.append_assoc]
    rfl
  · rintro ⟨noQuote, _, rfl, _, split⟩
    refine ⟨_, ⟨noQuote, rfl⟩, trivial, ?_⟩
    rw [split]
    simp only [List.cons_append, List.nil_append, List.append_assoc]

/-- Text without a quote has none. -/
theorem ne_quote_of_mem {literal : List UInt8} (noQuote : quote ∉ literal) :
    ∀ byte ∈ literal, (byte != quote) = true := by
  intro byte member
  rw [bne_iff_ne]
  rintro rfl
  exact noQuote member

/-- A literal is read as its name. -/
theorem parseStringLiteral_of_lexeme {name : Name}
    (lexeme : sqlLexis.Lexeme (.literal name) text rest) :
    parseStringLiteral text = some (name, rest) := by
  obtain ⟨noQuote, opened⟩ := lexeme_literal_iff.mp lexeme
  have stop : ∀ byte ∈ (quote :: rest).head?, (byte != quote) = false := by
    rintro _ ⟨⟩
    exact bne_self_eq_false quote
  have run := takeWhile_run (ne_quote_of_mem noQuote) stop
  have after := dropWhile_run (ne_quote_of_mem noQuote) stop
  have buffer : (CString.ofBuffer name.bytes).truncate dbNameLimit = name :=
    BoundedString.ext_bytes (BoundedString.truncate_ofBuffer name.noNul name.fits)
  simp only [parseStringLiteral, opened, run, after, buffer]
  exact if_neg (Nat.not_lt.mpr name.fits)

/-- In a C string there is no NUL that would end the literal early. -/
theorem lexeme_of_parseStringLiteral {name : Name} (noNul : 0 ∉ text)
    (read : parseStringLiteral text = some (name, rest)) :
    sqlLexis.Lexeme (.literal name) text rest := by
  rw [lexeme_literal_iff]
  simp only [parseStringLiteral] at read
  split at read
  · cases read
  · next cur opened =>
      split at read
      · cases read
      · next fits =>
          split at read
          · cases read
          · next closing after split =>
              cases read
              have inside : cur <:+ text := ((expectSymbol_eq_some_iff rfl).mp opened).suffix
              have clean : 0 ∉ cur.takeWhile (· != quote) := fun member =>
                noNul (inside.subset (List.takeWhile_subset _ member))
              have whole := BoundedString.truncate_ofBuffer clean (Nat.not_lt.mp fits)
              have closes : closing = quote := by
                have stopped := dropWhile_stops (· != quote) cur closing (by rw [split]; rfl)
                simpa using stopped
              rw [whole]
              refine ⟨fun member => ?_, ?_⟩
              · have notQuote := List.mem_takeWhile_imp member
                simp at notQuote
              · subst closes
                rw [opened, ← split, List.takeWhile_append_dropWhile]

/-- At most one `;`. -/
def terminator : Bool → List Token
  | true => [.symbol 59]
  | false => []

theorem blank_iff : (∀ byte ∈ text, sqlLexis.blank byte = true) ↔ skipWs text = [] :=
  List.dropWhile_eq_nil_iff.symm

/-- A statement ends in blanks and at most one semicolon. -/
theorem atStatementEnd_iff :
    atStatementEnd text = true ↔
      ∃ terminated, sqlLexis.Spells (terminator terminated) text := by
  constructor
  · intro atEnd
    cases start : skipWs text with
    | nil => exact ⟨false, text, rfl, blank_iff.mpr start⟩
    | cons first more =>
        simp only [atStatementEnd, start, Bool.and_eq_true, decide_eq_true_eq] at atEnd
        obtain ⟨rfl, nothing⟩ := atEnd
        have opened : expectSymbol 59 text = some more := by
          simp only [expectSymbol, start, ↓reduceIte]
        exact ⟨true, more, ⟨more, (expectSymbol_eq_some_iff rfl).mp opened, rfl⟩,
          blank_iff.mpr nothing⟩
  · rintro ⟨terminated, rest, lexemes, blank⟩
    have nothing := blank_iff.mp blank
    cases terminated with
    | false =>
        obtain rfl : text = rest := lexemes
        simp only [atStatementEnd, nothing]
    | true =>
        obtain ⟨_, lexeme, rfl⟩ := lexemes
        have opened := (expectSymbol_eq_some_iff rfl).mpr lexeme
        simp only [expectSymbol] at opened
        split at opened
        · cases opened
        · next first more start =>
            split at opened
            · next semicolon =>
                cases opened
                simp only [atStatementEnd, start, semicolon, nothing, decide_true, Bool.and_self]
            · cases opened

/-- A word is not the end. -/
theorem atStatementEnd_of_word {keyword : Keyword}
    (lexeme : sqlLexis.Lexeme (.word keyword) text rest) : atStatementEnd text = false := by
  obtain ⟨lead, more, split, start⟩ := skipWs_of_word lexeme
  have notSemicolon : lead ≠ 59 := by
    rintro rfl
    cases start
  simp only [atStatementEnd, split, notSemicolon, decide_false, Bool.false_and]

end Lexical

end MiniDbms.Sql
