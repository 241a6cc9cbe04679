import MiniDbms.Foundation.Decimal

/-! # Reading flat JSON

A reader for arrays of objects whose members are strings and integers, on bytes.
Bytes from `0x80` on stand for themselves; `\u` escapes are read as UTF-8.

What was written with commas between the items and no blanks is read back
(`MiniDbms.Foundation.readSequence_joined`), given that each item is
(`MiniDbms.Foundation.ItemReads`).
-/

namespace MiniDbms.Foundation

inductive JsonScalar where
  | number (value : Int)
  | text (bytes : List UInt8)
  deriving DecidableEq

/-- The members of an object, in order. -/
abbrev JsonObject : Type := List (List UInt8 × JsonScalar)

def isBlank (byte : UInt8) : Bool := byte == 32 || byte == 9 || byte == 10 || byte == 13

def skipBlanks (text : List UInt8) : List UInt8 := text.dropWhile isBlank

def hexValue (byte : UInt8) : Option Nat :=
  if isDigit byte then some (byte.toNat - 48)
  else if 97 ≤ byte && byte ≤ 102 then some (byte.toNat - 87)
  else if 65 ≤ byte && byte ≤ 70 then some (byte.toNat - 55)
  else none

/-- The UTF-8 encoding of a code point below `0x10000`. -/
def utf8 (code : Nat) : List UInt8 :=
  if code < 0x80 then [UInt8.ofNat code]
  else if code < 0x800 then [UInt8.ofNat (0xC0 + code / 64), UInt8.ofNat (0x80 + code % 64)]
  else
    [UInt8.ofNat (0xE0 + code / 4096), UInt8.ofNat (0x80 + code / 64 % 64),
      UInt8.ofNat (0x80 + code % 64)]

/-- The four digits of a `\u` escape. Surrogates are not supported. -/
def readUnicode : List UInt8 → Option (List UInt8 × List UInt8)
  | a :: b :: c :: d :: text => do
      let a ← hexValue a
      let b ← hexValue b
      let c ← hexValue c
      let d ← hexValue d
      let code := 4096 * a + 256 * b + 16 * c + d
      if 0xD800 ≤ code ∧ code < 0xE000 then none else some (utf8 code, text)
  | _ => none

/-- What an escape of one letter stands for. -/
def simpleEscape (byte : UInt8) : Option UInt8 :=
  [(34, 34), (92, 92), (47, 47), (98, 8), (102, 12), (110, 10), (114, 13), (116, 9)].lookup byte

/-- One character of a string that has not ended. -/
def readCharacter : List UInt8 → Option (List UInt8 × List UInt8)
  | [] => none
  | byte :: text =>
      if byte = 92 then
        match text with
        | [] => none
        | escape :: text =>
            if escape = 117 then readUnicode text
            else (simpleEscape escape).map fun meant => ([meant], text)
      else if byte < 32 then none
      else some ([byte], text)

/-- A string after its opening quote, at most `fuel` characters long. -/
def readString : Nat → List UInt8 → Option (List UInt8 × List UInt8)
  | 0, _ => none
  | fuel + 1, text =>
      if text.head? = some 34 then some ([], text.tail)
      else do
        let (character, text) ← readCharacter text
        let (bytes, text) ← readString fuel text
        return (character ++ bytes, text)

/-- An optional minus sign. -/
def readMinus : List UInt8 → Bool × List UInt8
  | [] => (false, [])
  | byte :: text => if byte = minusSign then (true, text) else (false, byte :: text)

/-- Whether the number goes on after its integer part. -/
def hasFraction (text : List UInt8) : Bool :=
  text.head? = some 46 || text.head? = some 69 || text.head? = some 101

/-- An integer. -/
def readNumber (text : List UInt8) : Option (Int × List UInt8) :=
  let (negative, unsigned) := readMinus text
  let digits := unsigned.takeWhile isDigit
  let rest := unsigned.dropWhile isDigit
  if digits = [] ∨ (digits.head? = some 48 ∧ 1 < digits.length) ∨ hasFraction rest then none
  else
    let magnitude : Int := numeralValue digits
    some (if negative then -magnitude else magnitude, rest)

def readScalar (fuel : Nat) (text : List UInt8) : Option (JsonScalar × List UInt8) :=
  if text.head? = some 34 then
    (readString fuel text.tail).map fun read => (.text read.1, read.2)
  else (readNumber text).map fun read => (.number read.1, read.2)

/-- One byte of punctuation. -/
def readByte (byte : UInt8) (text : List UInt8) : Option (List UInt8) :=
  if text.head? = some byte then some text.tail else none

def readMember (fuel : Nat) (text : List UInt8) :
    Option ((List UInt8 × JsonScalar) × List UInt8) := do
  let text ← readByte 34 text
  let (key, text) ← readString fuel text
  let text ← readByte 58 (skipBlanks text)
  let (value, text) ← readScalar fuel (skipBlanks text)
  return ((key, value), text)

section Sequences

variable {α β : Type}

/-- Items with commas between them, up to the closing byte. -/
def readItems (item : List UInt8 → Option (β × List UInt8)) (close : UInt8) :
    Nat → List UInt8 → Option (List β × List UInt8)
  | 0, _ => none
  | fuel + 1, text => do
      let (first, text) ← item (skipBlanks text)
      let text := skipBlanks text
      if text.head? = some close then some ([first], text.tail)
      else do
        let text ← readByte comma text
        let (others, text) ← readItems item close fuel text
        return (first :: others, text)

/-- The items of an array or an object after its opening byte. -/
def readSequence (item : List UInt8 → Option (β × List UInt8)) (close : UInt8) (fuel : Nat)
    (text : List UInt8) : Option (List β × List UInt8) :=
  let text := skipBlanks text
  if text.head? = some close then some ([], text.tail) else readItems item close fuel text

def readObject (fuel : Nat) (text : List UInt8) : Option (JsonObject × List UInt8) := do
  let text ← readByte 123 text
  readSequence (readMember fuel) 125 fuel text

/-- The objects of an array that is the whole text. -/
def decodeRows (text : List UInt8) : Option (List JsonObject) := do
  let fuel := text.length
  let text ← readByte 91 (skipBlanks text)
  let (rows, text) ← readSequence (readObject fuel) 93 fuel text
  if skipBlanks text = [] then some rows else none

/-- Items written one after another with commas between them. -/
def joined (written : α → List UInt8) : List α → List UInt8
  | [] => []
  | a :: others => written a ++ others.flatMap fun other => comma :: written other

/-- A byte that is neither blank nor the end of a sequence. -/
def Solid (close : UInt8) (text : List UInt8) : Prop :=
  ∃ byte rest, text = byte :: rest ∧ isBlank byte = false ∧ byte ≠ close

/-- An item is read back wherever a comma or the closing byte follows. -/
structure ItemReads (item : List UInt8 → Option (β × List UInt8)) (close : UInt8)
    (written : α → List UInt8) (value : α → β) (a : α) : Prop where
  solid : Solid close (written a)
  reads : ∀ rest, rest.head? = some comma ∨ rest.head? = some close →
    item (written a ++ rest) = some (value a, rest)

theorem skipBlanks_cons {byte : UInt8} (solid : isBlank byte = false) (text : List UInt8) :
    skipBlanks (byte :: text) = byte :: text := by
  rw [skipBlanks, List.dropWhile_cons_of_neg (by rw [solid]; exact Bool.false_ne_true)]

theorem Solid.skipBlanks {close : UInt8} {text : List UInt8} (solid : Solid close text)
    (rest : List UInt8) : skipBlanks (text ++ rest) = text ++ rest := by
  obtain ⟨byte, tail, rfl, plain, _⟩ := solid
  exact skipBlanks_cons plain _

theorem Solid.head {close : UInt8} {text : List UInt8} (solid : Solid close text)
    (rest : List UInt8) : (text ++ rest).head? ≠ some close := by
  obtain ⟨byte, tail, rfl, _, different⟩ := solid
  exact fun same => different (Option.some.inj same)

/-- The byte that is there is read. -/
theorem readByte_cons (byte : UInt8) (text : List UInt8) :
    readByte byte (byte :: text) = some text :=
  if_pos rfl

variable {item : List UInt8 → Option (β × List UInt8)} {close : UInt8} {written : α → List UInt8}
  {value : α → β}

/-- Items that are joined by commas are read back up to the closing byte. -/
theorem readItems_joined (closing : close ≠ comma ∧ isBlank close = false) {first : α}
    {others : List α} (reads : ∀ a ∈ first :: others, ItemReads item close written value a)
    {fuel : Nat} (enough : others.length < fuel) (rest : List UInt8) :
    readItems item close fuel (joined written (first :: others) ++ close :: rest) =
      some ((first :: others).map value, rest) := by
  obtain ⟨fuel, rfl⟩ := Nat.exists_eq_succ_of_ne_zero (Nat.ne_zero_of_lt enough)
  obtain ⟨solid, read⟩ := reads first List.mem_cons_self
  induction others generalizing first fuel with
  | nil =>
      have last := read (close :: rest) (.inr rfl)
      simp only [joined, List.flatMap_nil, List.append_nil, readItems, solid.skipBlanks, last,
        Option.bind_eq_bind, Option.bind_some, skipBlanks_cons closing.2, List.head?_cons,
        ↓reduceIte, List.tail_cons, List.map_cons, List.map_nil]
  | cons second others ih =>
      have later : ∀ a ∈ second :: others, ItemReads item close written value a :=
        fun a member => reads a (List.mem_cons_of_mem first member)
      obtain ⟨fuel, rfl⟩ := Nat.exists_eq_succ_of_ne_zero
        (Nat.ne_zero_of_lt (Nat.lt_of_succ_lt_succ enough))
      obtain ⟨nextSolid, nextRead⟩ := later second List.mem_cons_self
      have more := ih later fuel (Nat.lt_of_succ_lt_succ enough) nextSolid nextRead
      have split : joined written (first :: second :: others) ++ close :: rest =
          written first ++ comma :: (joined written (second :: others) ++ close :: rest) := by
        simp only [joined, List.flatMap_cons, List.cons_append, List.append_assoc]
      have next := read (comma :: (joined written (second :: others) ++ close :: rest)) (.inl rfl)
      have notClosed : (comma :: (joined written (second :: others) ++ close :: rest)).head? ≠
          some close := fun same => closing.1 (Option.some.inj same).symm
      have plain : isBlank comma = false := by decide
      rw [split, readItems, solid.skipBlanks, next]
      simp only [Option.bind_eq_bind, Option.bind_some, skipBlanks_cons plain, notClosed,
        ↓reduceIte, readByte_cons, more]
      rfl

/-- **A sequence that was written is read back.** -/
theorem readSequence_joined (closing : close ≠ comma ∧ isBlank close = false) {items : List α}
    (reads : ∀ a ∈ items, ItemReads item close written value a) {fuel : Nat}
    (enough : items.length ≤ fuel) (rest : List UInt8) :
    readSequence item close fuel (joined written items ++ close :: rest) =
      some (items.map value, rest) := by
  cases items with
  | nil =>
      simp only [joined, List.nil_append, readSequence, skipBlanks_cons closing.2, List.head?_cons,
        ↓reduceIte, List.tail_cons, List.map_nil]
  | cons first others =>
      have solid := (reads first List.mem_cons_self).solid
      have whole : joined written (first :: others) ++ close :: rest = written first ++
          (others.flatMap (fun other => comma :: written other) ++ close :: rest) := by
        rw [joined, List.append_assoc]
      rw [readSequence, whole, solid.skipBlanks, ← whole]
      simp only [whole ▸ solid.head _, ↓reduceIte]
      exact readItems_joined closing reads enough rest

/-- A loop that remembers whether a comma is needed writes the items so. -/
theorem joined_of_loop {written : α → List UInt8} {loop : Bool → List α → List UInt8}
    (stop : ∀ needComma, loop needComma [] = [])
    (step : ∀ needComma a others, loop needComma (a :: others) =
      (if needComma then [comma] else []) ++ written a ++ loop true others) (items : List α) :
    loop false items = joined written items := by
  have later : ∀ others, loop true others = others.flatMap fun other => comma :: written other := by
    intro others
    induction others with
    | nil => exact stop true
    | cons second others ih =>
        rw [step, ih]
        rfl
  cases items with
  | nil => exact stop false
  | cons first others =>
      rw [step, later]
      rfl

/-- No item is longer than all of them together. -/
theorem length_le_joined {items : List α} {a : α} (member : a ∈ items) :
    (written a).length ≤ (joined written items).length := by
  cases items with
  | nil => cases member
  | cons first others =>
      rw [joined, List.length_append]
      rcases List.mem_cons.mp member with rfl | later
      · omega
      · obtain ⟨front, back, rfl⟩ := List.append_of_mem later
        simp only [List.flatMap_append, List.flatMap_cons, List.length_append, List.length_cons]
        omega

/-- There is a comma for every item but the first. -/
theorem count_le_joined (written : α → List UInt8) (items : List α) :
    items.length ≤ (joined written items).length + 1 := by
  have commas : ∀ others : List α,
      others.length ≤ (others.flatMap fun other => comma :: written other).length := by
    intro others
    induction others with
    | nil => exact Nat.le_refl 0
    | cons second others ih =>
        simp only [List.flatMap_cons, List.length_append, List.length_cons]
        omega
  cases items with
  | nil => exact Nat.zero_le _
  | cons first others =>
      have one := commas others
      rw [joined, List.length_append, List.length_cons]
      omega

end Sequences

section Leaves

/-- A numeral of several digits does not start with a zero. -/
theorem decimal_no_zero (n : Nat) :
    ¬((decimal n).head? = some 48 ∧ 1 < (decimal n).length) := by
  rintro ⟨zero, long⟩
  obtain ⟨lead, more, spelled⟩ := List.exists_cons_of_ne_nil (decimal_ne_nil n)
  rw [spelled, List.head?_cons, Option.some.injEq] at zero
  rcases Nat.lt_or_ge n 10 with small | large
  · rw [decimal_of_lt small, List.length_singleton] at long
    omega
  · have positive := numeralValue_pos_of_prefix (by omega : 0 < n) ⟨more, spelled.symm⟩
      (List.cons_ne_nil lead [])
    rw [zero] at positive
    exact absurd positive (by decide)

/-- A numeral has no sign. -/
theorem readMinus_decimal (n : Nat) (text : List UInt8) :
    readMinus (decimal n ++ text) = (false, decimal n ++ text) := by
  obtain ⟨lead, more, spelled⟩ := List.exists_cons_of_ne_nil (decimal_ne_nil n)
  have isFirst := isDigit_of_mem_decimal n lead (spelled ▸ List.mem_cons_self)
  rw [spelled, List.cons_append, readMinus, if_neg (isDigit_plain isFirst).2.1]

/-- An integer is read back up to a byte that does not continue it. -/
theorem readNumber_formatInt (value : Int) {rest : List UInt8} (stop : NoDigitFirst rest)
    (whole : hasFraction rest = false) :
    readNumber (formatInt value ++ rest) = some (value, rest) := by
  have all := isDigit_of_mem_decimal value.natAbs
  have digits := takeWhile_isDigit_append all stop
  have after := dropWhile_isDigit_append all stop
  have noZero := decimal_no_zero value.natAbs
  unfold formatInt
  split
  · next negative =>
      have signed : readMinus (minusSign :: decimal value.natAbs ++ rest) =
          (true, decimal value.natAbs ++ rest) := by
        rw [List.cons_append, readMinus, if_pos rfl]
      simp only [readNumber, signed, digits, after, decimal_ne_nil, noZero, whole, or_self,
        Bool.false_eq_true, ↓reduceIte, numeralValue_decimal]
      congr 2
      omega
  · simp only [readNumber, readMinus_decimal, digits, after, decimal_ne_nil, noZero, whole, or_self,
      Bool.false_eq_true, ↓reduceIte, numeralValue_decimal]
    congr 2
    omega

/-- No number starts with a quote. -/
theorem readScalar_number (fuel : Nat) {text rest : List UInt8} {value : Int}
    (read : readNumber text = some (value, rest)) :
    readScalar fuel text = some (.number value, rest) := by
  rw [readScalar, if_neg, read]
  · rfl
  · intro quoted
    cases text with
    | nil => cases quoted
    | cons first text =>
        cases quoted
        cases read

/-- A string is read back if each of its bytes is. -/
theorem readString_flatMap {escaped : UInt8 → List UInt8} {text : List UInt8}
    (each : ∀ byte ∈ text, (escaped byte).head? ≠ some 34 ∧ escaped byte ≠ [] ∧
      ∀ rest, readCharacter (escaped byte ++ rest) = some ([byte], rest))
    {fuel : Nat} (enough : text.length < fuel) (rest : List UInt8) :
    readString fuel (text.flatMap escaped ++ 34 :: rest) = some (text, rest) := by
  obtain ⟨fuel, rfl⟩ := Nat.exists_eq_succ_of_ne_zero (Nat.ne_zero_of_lt enough)
  induction text generalizing fuel with
  | nil => rfl
  | cons byte text ih =>
      obtain ⟨fuel, rfl⟩ := Nat.exists_eq_succ_of_ne_zero
        (Nat.ne_zero_of_lt (Nat.lt_of_succ_lt_succ enough))
      obtain ⟨opening, nonempty, read⟩ := each byte List.mem_cons_self
      have more := ih (fun later member => each later (List.mem_cons_of_mem byte member)) fuel
        (Nat.lt_of_succ_lt_succ enough)
      have notEnded : (escaped byte ++ (text.flatMap escaped ++ 34 :: rest)).head? ≠ some 34 := by
        rwa [List.head?_append_of_ne_nil _ nonempty]
      rw [List.flatMap_cons, List.append_assoc, readString, if_neg notEnded, read]
      simp only [Option.bind_eq_bind, Option.bind_some, more]
      rfl

/-- A byte that a string holds as it is. -/
def isPlain (byte : UInt8) : Bool := byte != 34 && byte != 92 && 32 ≤ byte

/-- A string is read back as it is when none of its bytes needs an escape. -/
theorem readString_plain {text : List UInt8} (plain : text.all isPlain = true) {fuel : Nat}
    (enough : text.length < fuel) (rest : List UInt8) :
    readString fuel (text ++ 34 :: rest) = some (text, rest) := by
  have read := @readString_flatMap (fun byte => [byte]) text
    (fun byte member => by
      have kept := List.all_eq_true.mp plain byte member
      simp only [isPlain, Bool.and_eq_true, bne_iff_ne, decide_eq_true_eq] at kept
      obtain ⟨⟨notQuote, notBackslash⟩, printable⟩ := kept
      refine ⟨fun same => notQuote (Option.some.inj same), List.cons_ne_nil _ _, fun rest => ?_⟩
      exact (if_neg notBackslash).trans (if_neg (UInt8.not_lt.mpr printable)))
    fuel enough rest
  rwa [List.flatMap_singleton'] at read

/-- An integer is not blank. -/
theorem skipBlanks_formatInt (value : Int) (rest : List UInt8) :
    skipBlanks (formatInt value ++ rest) = formatInt value ++ rest := by
  obtain ⟨lead, more, spelled⟩ := List.exists_cons_of_ne_nil (decimal_ne_nil value.natAbs)
  have digit := isDigit_of_mem_decimal value.natAbs lead (spelled ▸ List.mem_cons_self)
  unfold formatInt
  split
  · exact skipBlanks_cons (by decide) _
  · rw [spelled]
    apply skipBlanks_cons
    simp only [isDigit, isBlank, Bool.and_eq_true, decide_eq_true_eq] at digit ⊢
    grind

/-- A member is read in its two parts. -/
theorem readMember_parts {fuel : Nat} {text valueText rest key : List UInt8} {value : JsonScalar}
    (named : readString fuel text = some (key, 58 :: valueText))
    (unspaced : skipBlanks valueText = valueText)
    (read : readScalar fuel valueText = some (value, rest)) :
    readMember fuel (34 :: text) = some ((key, value), rest) := by
  have colon : skipBlanks (58 :: valueText) = 58 :: valueText := skipBlanks_cons (by decide) _
  simp only [readMember, readByte_cons, Option.bind_eq_bind, Option.bind_some, named, colon,
    unspaced, read]
  rfl

end Leaves

end MiniDbms.Foundation
