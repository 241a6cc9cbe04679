import Mathlib.Data.List.DropRight
import Mathlib.Data.Nat.Find
import MiniDbms.Foundation.Decimal

/-! # Searching and scanning C strings

`strstr`, the `%s` conversion of `sscanf`, and `strtoul`, on the bytes before the
terminating NUL. A search finds the same place in every longer text
(`MiniDbms.Foundation.strstr_take`). A word or a number that white space follows
is read the same whatever comes later (`MiniDbms.Foundation.scanWord_append`,
`MiniDbms.Foundation.strtoul_append`).
-/

namespace MiniDbms.Foundation

/-- `strstr(text, word)`: the offset of the first occurrence. -/
def strstr (word : List UInt8) : List UInt8 → Option Nat
  | [] => if word = [] then some 0 else none
  | byte :: text =>
      if word.isPrefixOf (byte :: text) then some 0 else (strstr word text).map (· + 1)

/-- The word is found where it first stands. -/
theorem strstr_eq_some_iff {word : List UInt8} (nonempty : word ≠ []) {text : List UInt8}
    {offset : Nat} :
    strstr word text = some offset ↔
      word <+: text.drop offset ∧ ∀ earlier < offset, ¬ word <+: text.drop earlier := by
  induction text generalizing offset with
  | nil =>
      simp only [strstr, nonempty, ↓reduceIte, List.drop_nil, List.prefix_nil, false_and,
        reduceCtorEq]
  | cons byte text ih =>
      by_cases here : word.isPrefixOf (byte :: text) = true
      · rw [strstr, if_pos here]
        have starts := List.isPrefixOf_iff_prefix.mp here
        cases offset with
        | zero => exact iff_of_true rfl ⟨starts, nofun⟩
        | succ offset =>
            exact iff_of_false nofun fun found => found.2 0 (Nat.succ_pos offset) starts
      · rw [strstr, if_neg here]
        have absent : ¬ word <+: byte :: text := fun starts =>
          here (List.isPrefixOf_iff_prefix.mpr starts)
        cases offset with
        | zero =>
            refine iff_of_false ?_ fun found => absent found.1
            rw [Option.map_eq_some_iff]
            rintro ⟨_, _, impossible⟩
            exact Nat.succ_ne_zero _ impossible
        | succ offset =>
            rw [Option.map_eq_some_iff]
            constructor
            · rintro ⟨other, found, same⟩
              obtain rfl := Nat.succ.inj same
              obtain ⟨occurs, first⟩ := ih.mp found
              refine ⟨occurs, fun earlier below => ?_⟩
              cases earlier with
              | zero => exact absent
              | succ earlier => exact first earlier (Nat.lt_of_succ_lt_succ below)
            · rintro ⟨occurs, first⟩
              exact ⟨offset, ih.mpr ⟨occurs, fun earlier below =>
                first (earlier + 1) (Nat.succ_lt_succ below)⟩, rfl⟩

/-- In the first `count` bytes of a text, the word is found where it is found in the
whole text, if it lies within them. -/
theorem strstr_take {word : List UInt8} (nonempty : word ≠ []) {text : List UInt8}
    {count offset : Nat} :
    strstr word (text.take count) = some offset ↔
      strstr word text = some offset ∧ offset + word.length ≤ count := by
  have positive := List.length_pos_of_ne_nil nonempty
  have occurs : ∀ start, word <+: (text.take count).drop start ↔
      word <+: text.drop start ∧ start + word.length ≤ count := by
    intro start
    rw [List.drop_take, List.prefix_take_iff]
    exact and_congr_right fun _ => by omega
  rw [strstr_eq_some_iff nonempty, strstr_eq_some_iff nonempty, occurs]
  constructor
  · rintro ⟨⟨here, fits⟩, first⟩
    refine ⟨⟨here, fun earlier below starts => ?_⟩, fits⟩
    exact first earlier below ((occurs earlier).mpr ⟨starts, by omega⟩)
  · rintro ⟨⟨here, first⟩, fits⟩
    exact ⟨⟨here, fits⟩, fun earlier below starts =>
      first earlier below ((occurs earlier).mp starts).1⟩

/-- More text behind does not change where the word is found. -/
theorem strstr_append {word : List UInt8} (nonempty : word ≠ []) {text : List UInt8}
    {offset : Nat} (found : strstr word text = some offset) (more : List UInt8) :
    strstr word (text ++ more) = some offset := by
  have whole : strstr word ((text ++ more).take text.length) = some offset := by
    rwa [List.take_left]
  exact ((strstr_take nonempty).mp whole).1

/-- A found word lies inside the text. -/
theorem strstr_le {word text : List UInt8} (nonempty : word ≠ []) {offset : Nat}
    (found : strstr word text = some offset) : offset + word.length ≤ text.length := by
  have whole : strstr word (text.take text.length) = some offset := by rwa [List.take_length]
  exact ((strstr_take nonempty).mp whole).2

/-- An occurrence bounds the first one. -/
theorem strstr_of_occurs {word text : List UInt8} (nonempty : word ≠ []) {place : Nat}
    (occurs : word <+: text.drop place) : ∃ offset ≤ place, strstr word text = some offset := by
  classical
  have exists' : ∃ place, word <+: text.drop place := ⟨place, occurs⟩
  exact ⟨Nat.find exists', Nat.find_min' exists' occurs, (strstr_eq_some_iff nonempty).mpr
    ⟨Nat.find_spec exists', fun earlier below => Nat.find_min exists' below⟩⟩

/-- A stretch without the first byte of the word is skipped. -/
theorem strstr_skip {lead : UInt8} {others before : List UInt8} (absent : lead ∉ before)
    (text : List UInt8) :
    strstr (lead :: others) (before ++ text) =
      (strstr (lead :: others) text).map (· + before.length) := by
  induction before with
  | nil => simp only [List.nil_append, List.length_nil, Nat.add_zero, Option.map_id']
  | cons byte before ih =>
      obtain ⟨different, later⟩ := not_or.mp (List.mem_cons.not.mp absent)
      rw [List.cons_append, strstr, if_neg, ih later, Option.map_map]
      · congr 1
      · rw [List.isPrefixOf_iff_prefix, List.cons_prefix_cons]
        exact fun same => different same.1

/-- A run ends at a symbol that stops it. -/
theorem takeWhile_append_stop {α : Type*} {test : α → Bool} {stop : α} (stops : test stop = false)
    (run more : List α) : (run ++ stop :: more).takeWhile test = run.takeWhile test := by
  induction run with
  | nil => simp only [List.nil_append, List.takeWhile_cons, stops, Bool.false_eq_true, ↓reduceIte,
      List.takeWhile_nil]
  | cons item run ih =>
      by_cases kept : test item = true
      · simp only [List.cons_append, List.takeWhile_cons, kept, ↓reduceIte, ih]
      · simp only [List.cons_append, List.takeWhile_cons, kept, Bool.false_eq_true, ↓reduceIte]

/-- A byte of a `%s` conversion. -/
def isWordChar (byte : UInt8) : Bool := !isSpace byte

/-- The conversion `%<limit>s`: the word and the text behind it. -/
def scanWord (limit : Nat) (text : List UInt8) : Option (List UInt8 × List UInt8) :=
  let start := text.dropWhile isSpace
  let word := (start.takeWhile isWordChar).take limit
  if word = [] then none else some (word, start.drop word.length)

section Words

variable {limit : Nat} {text word rest : List UInt8}

/-- A word is read behind the white space, up to the limit. -/
theorem scanWord_eq_some_iff :
    scanWord limit text = some (word, rest) ↔
      word ≠ [] ∧ word = ((text.dropWhile isSpace).takeWhile isWordChar).take limit ∧
        text.dropWhile isSpace = word ++ rest := by
  have split : ∀ start : List UInt8, (start.takeWhile isWordChar).take limit ++
      start.drop ((start.takeWhile isWordChar).take limit).length = start := by
    intro start
    have initial : (start.takeWhile isWordChar).take limit <+: start :=
      (List.take_prefix _ _).trans (List.takeWhile_prefix _)
    conv_lhs => arg 1; rw [List.prefix_iff_eq_take.mp initial]
    exact List.take_append_drop _ _
  simp only [scanWord]
  split
  · next empty => exact iff_of_false nofun fun ⟨nonempty, same, _⟩ => nonempty (same.trans empty)
  · next nonempty =>
      rw [Option.some.injEq, Prod.mk.injEq]
      constructor
      · rintro ⟨rfl, rfl⟩
        exact ⟨nonempty, rfl, (split _).symm⟩
      · rintro ⟨_, rfl, whole⟩
        refine ⟨rfl, ?_⟩
        exact List.append_cancel_left ((split _).trans whole)

/-- A word has no white space and no NUL. -/
theorem isWordChar_of_mem_scanWord (scanned : scanWord limit text = some (word, rest)) :
    ∀ byte ∈ word, isWordChar byte = true := by
  obtain ⟨_, isWord, _⟩ := scanWord_eq_some_iff.mp scanned
  intro byte member
  rw [isWord] at member
  exact List.mem_takeWhile_imp (List.mem_of_mem_take member)

/-- A word that did not reach the end of the text is read the same when more follows. -/
theorem scanWord_append (scanned : scanWord limit text = some (word, rest)) (ended : rest ≠ [])
    (more : List UInt8) : scanWord limit (text ++ more) = some (word, rest ++ more) := by
  have inside := isWordChar_of_mem_scanWord scanned
  obtain ⟨nonempty, isWord, whole⟩ := scanWord_eq_some_iff.mp scanned
  have starts : (text ++ more).dropWhile isSpace = word ++ (rest ++ more) := by
    rw [List.dropWhile_append, if_neg, whole, List.append_assoc]
    rw [whole, List.isEmpty_iff, List.append_eq_nil_iff]
    exact fun both => nonempty both.1
  rw [whole, List.takeWhile_append_of_pos inside] at isWord
  refine scanWord_eq_some_iff.mpr ⟨nonempty, ?_, starts⟩
  rw [starts, List.takeWhile_append_of_pos inside]
  obtain ⟨next, others, rfl⟩ := List.exists_cons_of_ne_nil ended
  rcases Nat.lt_or_ge word.length limit with shorter | reached
  · -- The word ended at white space, not at the limit.
    have stops : isWordChar next = false := by
      by_contra continues
      have counts := congrArg List.length isWord
      rw [List.takeWhile_cons_of_pos (by simpa using continues), List.length_take,
        List.length_append, List.length_cons] at counts
      omega
    rw [List.cons_append, List.takeWhile_cons_of_neg (by rw [stops]; exact Bool.false_ne_true),
      List.append_nil, List.take_of_length_le shorter.le]
  · rw [List.take_append_of_le_length reached] at isWord ⊢
    exact isWord

/-- In a text that ends in white space no word reaches the end. -/
theorem scanWord_before_space {front : List UInt8} {last : UInt8} (space : isSpace last = true)
    (scanned : scanWord limit (front ++ [last]) = some (word, rest)) :
    ∃ front', rest = front' ++ [last] := by
  have inside := isWordChar_of_mem_scanWord scanned
  obtain ⟨nonempty, _, whole⟩ := scanWord_eq_some_iff.mp scanned
  have ends : [last] <:+ word ++ rest := by
    rw [← whole]
    obtain ⟨skipped, split⟩ := List.dropWhile_suffix (l := front ++ [last]) isSpace
    rw [whole] at split ⊢
    rcases List.eq_nil_or_concat' (word ++ rest) with none | ⟨initial, final, concat⟩
    · exact absurd (List.append_eq_nil_iff.mp none).1 nonempty
    · rw [concat, ← List.append_assoc] at split
      obtain ⟨_, same⟩ := List.append_inj' split rfl
      exact ⟨initial, by rw [concat, same]⟩
  rcases List.eq_nil_or_concat' rest with rfl | ⟨initial, final, rfl⟩
  · obtain ⟨initial, same⟩ := ends
    have member : last ∈ word := by
      rw [List.append_nil] at same
      rw [← same]
      exact List.mem_append_right _ (List.mem_singleton_self last)
    have char := inside last member
    rw [isWordChar, space] at char
    cases char
  · obtain ⟨other, same⟩ := ends
    rw [← List.append_assoc] at same
    obtain ⟨_, isFinal⟩ := List.append_inj' same rfl
    exact ⟨initial, by rw [isFinal]⟩

/-- A word between white space is read. -/
theorem scanWord_word {blanks : List UInt8} {stop : UInt8}
    (blank : ∀ byte ∈ blanks, isSpace byte = true) (nonempty : word ≠ [])
    (chars : ∀ byte ∈ word, isWordChar byte = true)
    (short : word.length ≤ limit) (stops : isSpace stop = true) :
    scanWord limit (blanks ++ (word ++ stop :: rest)) = some (word, stop :: rest) := by
  have starts : (blanks ++ (word ++ stop :: rest)).dropWhile isSpace = word ++ stop :: rest := by
    rw [List.dropWhile_append_of_pos blank]
    obtain ⟨lead, others, rfl⟩ := List.exists_cons_of_ne_nil nonempty
    have char := chars lead List.mem_cons_self
    rw [isWordChar, Bool.not_eq_true'] at char
    rw [List.cons_append, List.dropWhile_cons_of_neg (by rw [char]; exact Bool.false_ne_true)]
  refine scanWord_eq_some_iff.mpr ⟨nonempty, ?_, starts⟩
  rw [starts, takeWhile_append_stop (by rw [isWordChar, stops]; rfl),
    List.takeWhile_eq_self_iff.mpr chars, List.take_of_length_le short]

/-- There is a word to read if there is anything but white space. -/
theorem isSome_scanWord (positive : 0 < limit) :
    (scanWord limit text).isSome ↔ 0 < text.countP isWordChar := by
  rw [List.countP_pos_iff]
  cases start : text.dropWhile isSpace with
  | nil =>
      refine iff_of_false ?_ ?_
      · simp only [scanWord, start, List.takeWhile_nil, List.take_nil, ↓reduceIte,
          Option.isSome_none, Bool.false_eq_true, not_false_eq_true]
      · rintro ⟨byte, member, char⟩
        have space := List.dropWhile_eq_nil_iff.mp start byte member
        rw [isWordChar, space] at char
        cases char
  | cons byte others =>
      have char : isWordChar byte = true := by
        have stopped := List.head_dropWhile_not isSpace (l := text) (by rw [start]; exact nofun)
        simp only [start, List.head_cons] at stopped
        rw [isWordChar, stopped]
        rfl
      obtain ⟨least, rfl⟩ := Nat.exists_eq_add_one_of_ne_zero positive.ne'
      refine iff_of_true ?_ ⟨byte, ?_, char⟩
      · simp only [scanWord, start, List.takeWhile_cons, char, ↓reduceIte, List.take_succ_cons,
          reduceCtorEq, Option.isSome_some]
      · exact (List.dropWhile_suffix isSpace).subset (start ▸ List.mem_cons_self)

/-- Reading a word uses up at most `limit` bytes other than white space. -/
theorem countP_le_of_scanWord (scanned : scanWord limit text = some (word, rest)) :
    text.countP isWordChar ≤ limit + rest.countP isWordChar := by
  obtain ⟨_, isWord, whole⟩ := scanWord_eq_some_iff.mp scanned
  have skipped : (text.takeWhile isSpace).countP isWordChar = 0 := by
    refine List.countP_eq_zero.mpr fun byte member char => ?_
    have space := List.mem_takeWhile_imp member
    rw [isWordChar, space] at char
    cases char
  have short : word.length ≤ limit := by
    rw [isWord]
    exact List.length_take_le _ _
  calc text.countP isWordChar
      = (text.takeWhile isSpace ++ text.dropWhile isSpace).countP isWordChar := by
        rw [List.takeWhile_append_dropWhile]
    _ = word.countP isWordChar + rest.countP isWordChar := by
        rw [List.countP_append, skipped, whole, List.countP_append, Nat.zero_add]
    _ ≤ limit + rest.countP isWordChar :=
        Nat.add_le_add_right (List.countP_le_length.trans short) _

/-- The first word of a text. -/
def firstWord (text : List UInt8) : List UInt8 := (text.dropWhile isSpace).takeWhile isWordChar

/-- What stands behind it. -/
def behindWord (text : List UInt8) : List UInt8 := (text.dropWhile isSpace).dropWhile isWordChar

theorem firstWord_append_behindWord (text : List UInt8) :
    firstWord text ++ behindWord text = text.dropWhile isSpace :=
  List.takeWhile_append_dropWhile

/-- Without a first word there is nothing but white space. -/
theorem dropWhile_of_firstWord_nil (none_ : firstWord text = []) :
    text.dropWhile isSpace = [] := by
  cases start : text.dropWhile isSpace with
  | nil => rfl
  | cons byte others =>
      have stopped : isSpace byte = false := dropWhile_stops isSpace text byte (by rw [start]; rfl)
      rw [firstWord, start, List.takeWhile_cons, isWordChar, stopped, Bool.not_false,
        if_pos rfl] at none_
      cases none_

/-- A word is read up to the limit. -/
theorem scanWord_firstWord (positive : 0 < limit) (present : firstWord text ≠ []) :
    scanWord limit text =
      some ((firstWord text).take limit, (firstWord text).drop limit ++ behindWord text) := by
  refine scanWord_eq_some_iff.mpr ⟨?_, rfl, ?_⟩
  · rw [Ne, List.take_eq_nil_iff, not_or]
    exact ⟨positive.ne', present⟩
  · rw [← List.append_assoc, List.take_append_drop, firstWord_append_behindWord]

/-- The first word ends where white space follows it. -/
theorem firstWord_chars (nonempty : word ≠ []) (chars : ∀ byte ∈ word, isWordChar byte = true)
    (stop : ∀ byte ∈ rest.head?, isWordChar byte = false) : firstWord (word ++ rest) = word := by
  obtain ⟨lead, others, rfl⟩ := List.exists_cons_of_ne_nil nonempty
  have notSpace : isSpace lead = false := by
    have char := chars lead List.mem_cons_self
    rwa [isWordChar, Bool.not_eq_true'] at char
  rw [firstWord, List.cons_append, List.dropWhile_cons, notSpace, if_neg Bool.false_ne_true,
    ← List.cons_append]
  exact takeWhile_run chars stop

/-- What follows a line does not change its first word. -/
theorem words_append {stop : UInt8} (space : isSpace stop = true) (present : firstWord text ≠ [])
    (more : List UInt8) :
    firstWord (text ++ stop :: more) = firstWord text ∧
      behindWord (text ++ stop :: more) = behindWord text ++ stop :: more := by
  have begun : text.dropWhile isSpace ≠ [] := by
    intro blank
    rw [firstWord, blank] at present
    exact present rfl
  have start : (text ++ stop :: more).dropWhile isSpace =
      text.dropWhile isSpace ++ stop :: more := by
    rw [List.dropWhile_append, if_neg (by simpa using begun)]
  have stops : isWordChar stop = false := by rw [isWordChar, space]; rfl
  constructor
  · rw [firstWord, start, takeWhile_append_stop stops]
    rfl
  · rw [behindWord, start, List.dropWhile_append]
    split
    · next ended =>
        rw [behindWord, List.isEmpty_iff.mp ended, List.nil_append, List.dropWhile_cons, stops,
          if_neg Bool.false_ne_true]
    · rfl

end Words

/-- `ULONG_MAX` with a 64-bit `unsigned long`. -/
def ulongMax : Nat := 2 ^ 64 - 1

/-- The value of `strtoul`: a number too large saturates, a negative one wraps. -/
def ulongOf (negative : Bool) (magnitude : Nat) : Nat :=
  if ulongMax < magnitude then ulongMax
  else if negative then (ulongMax + 1 - magnitude) % (ulongMax + 1) else magnitude

/-- A number without a sign is read as it is, or saturates. -/
theorem ulongOf_false (magnitude : Nat) : ulongOf false magnitude = min magnitude ulongMax := by
  unfold ulongOf
  split
  · next large => rw [Nat.min_eq_right (Nat.le_of_lt large)]
  · next fits => rw [if_neg Bool.false_ne_true, Nat.min_eq_left (Nat.le_of_not_lt fits)]

/-- `strtoul(text, &end, 10)`: the value and the text from `end` on, or nothing when
no digit was read. -/
def strtoul (text : List UInt8) : Option (Nat × List UInt8) :=
  let (negative, unsigned) := readSign (text.dropWhile isSpace)
  let digits := unsigned.takeWhile isDigit
  if digits = [] then none
  else some (ulongOf negative (numeralValue digits), unsigned.dropWhile isDigit)

theorem strtoul_dropWhile (text : List UInt8) :
    strtoul (text.dropWhile isSpace) = strtoul text := by
  simp only [strtoul, List.dropWhile_idempotent]

/-- More text behind does not change the sign. -/
theorem readSign_append {text : List UInt8} (nonempty : text ≠ []) (more : List UInt8) :
    readSign (text ++ more) = ((readSign text).1, (readSign text).2 ++ more) := by
  obtain ⟨byte, others, rfl⟩ := List.exists_cons_of_ne_nil nonempty
  simp only [List.cons_append, readSign]
  split
  · rfl
  · split <;> rfl

/-- In white space there is no number. -/
theorem strtoul_blank {text : List UInt8} (blank : text.dropWhile isSpace = []) :
    strtoul text = none := by
  simp only [strtoul, blank, readSign, List.takeWhile_nil, ↓reduceIte]

/-- White space before a number does not matter. -/
theorem strtoul_blank_append {text : List UInt8} (blank : text.dropWhile isSpace = [])
    (more : List UInt8) : strtoul (text ++ more) = strtoul more := by
  have start : (text ++ more).dropWhile isSpace = more.dropWhile isSpace := by
    rw [List.dropWhile_append, blank]
    rfl
  simp only [strtoul, start]

/-- A number in a text that ends in white space is read the same when more follows. -/
theorem strtoul_append {front : List UInt8} {last : UInt8} (space : isSpace last = true)
    (begun : front.dropWhile isSpace ≠ []) (more : List UInt8) :
    (strtoul (front ++ last :: more)).map Prod.fst =
      (strtoul (front ++ [last])).map Prod.fst := by
  have notDigit : isDigit last = false := by
    by_contra digit
    have plain := (isDigit_plain (by simpa using digit)).1
    rw [space] at plain
    cases plain
  have starts : ∀ more, (front ++ last :: more).dropWhile isSpace =
      front.dropWhile isSpace ++ last :: more := by
    intro more
    rw [List.dropWhile_append, if_neg (by simpa using begun)]
  have same : ∀ more, (strtoul (front ++ last :: more)).map Prod.fst =
      if ((readSign (front.dropWhile isSpace)).2.takeWhile isDigit) = [] then none
      else some (ulongOf (readSign (front.dropWhile isSpace)).1
        (numeralValue ((readSign (front.dropWhile isSpace)).2.takeWhile isDigit))) := by
    intro more
    simp only [strtoul, starts, readSign_append begun, takeWhile_append_stop notDigit]
    split <;> rfl
  rw [same, same]

/-- Unsigned digits behind white space are read up to the first other byte. -/
theorem strtoul_digits {blanks digits rest : List UInt8}
    (blank : ∀ byte ∈ blanks, isSpace byte = true) (nonempty : digits ≠ [])
    (all : ∀ byte ∈ digits, isDigit byte = true) (stop : NoDigitFirst rest) :
    strtoul (blanks ++ (digits ++ rest)) = some (ulongOf false (numeralValue digits), rest) := by
  obtain ⟨lead, more, rfl⟩ := List.exists_cons_of_ne_nil nonempty
  obtain ⟨noBlank, noMinus, noPlus⟩ := isDigit_plain (all lead List.mem_cons_self)
  have signed : readSign ((blanks ++ ((lead :: more) ++ rest)).dropWhile isSpace) =
      (false, (lead :: more) ++ rest) := by
    simp only [List.dropWhile_append_of_pos blank, List.cons_append, List.dropWhile_cons, noBlank,
      Bool.false_eq_true, ↓reduceIte, readSign, noMinus, noPlus]
  simp only [strtoul, signed, takeWhile_isDigit_append all stop, dropWhile_isDigit_append all stop,
    List.cons_ne_nil, ↓reduceIte]

end MiniDbms.Foundation
