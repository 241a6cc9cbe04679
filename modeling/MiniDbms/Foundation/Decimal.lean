import Mathlib.Algebra.Group.Int.Defs
import Mathlib.Algebra.Group.Nat.Defs
import Mathlib.Data.List.DropRight
import Mathlib.Data.List.Infix
import MiniDbms.Foundation.Bytes

/-! # Decimal numerals

Rendering with `%d` and reading with `strtol`. Reading undoes rendering
(`MiniDbms.Foundation.strtol_formatInt`), and a numeral that lost its leading
digits no longer denotes the same number
(`MiniDbms.Foundation.numeralValue_lt_of_decimal_eq_append`).
-/

namespace MiniDbms.Foundation

/-- The ASCII digit. -/
def digitByte (digit : Nat) : UInt8 := (Nat.digitChar digit).toUInt8

/-- The digits of a number, most significant first. -/
def decimal (n : Nat) : List UInt8 := (Nat.toDigits 10 n).map Char.toUInt8

/-- The number a list of digits denotes. -/
def numeralValue (digits : List UInt8) : Nat :=
  digits.foldl (fun value digit => 10 * value + (digit.toNat - 48)) 0

/-- `%d`. -/
def formatInt (value : Int) : List UInt8 :=
  if value < 0 then minusSign :: decimal value.natAbs else decimal value.natAbs

section Decimal

theorem digitByte_spec {digit : Nat} (bound : digit < 10) :
    isDigit (digitByte digit) = true ∧ (digitByte digit).toNat - 48 = digit := by
  revert digit
  decide

theorem decimal_of_lt {n : Nat} (small : n < 10) : decimal n = [digitByte n] := by
  rw [decimal, Nat.toDigits_of_lt_base small]
  rfl

theorem decimal_of_ge {n : Nat} (large : 10 ≤ n) :
    decimal n = decimal (n / 10) ++ [digitByte (n % 10)] := by
  rw [decimal, Nat.toDigits_of_base_le (by omega) large, List.map_append]
  rfl

@[simp] theorem decimal_ne_nil (n : Nat) : decimal n ≠ [] := by
  simp only [decimal, ne_eq, List.map_eq_nil_iff, Nat.toDigits_ne_nil, not_false_eq_true]

/-- A number is written in digits. -/
theorem isDigit_of_mem_decimal (n : Nat) : ∀ byte ∈ decimal n, isDigit byte = true := by
  induction n using Nat.strongRecOn with
  | ind n ih =>
      rcases Nat.lt_or_ge n 10 with small | large
      · rw [decimal_of_lt small]
        intro byte member
        rw [List.mem_singleton.mp member]
        exact (digitByte_spec small).1
      · rw [decimal_of_ge large]
        intro byte member
        rcases List.mem_append.mp member with front | last
        · exact ih (n / 10) (by omega) byte front
        · rw [List.mem_singleton.mp last]
          exact (digitByte_spec (by omega)).1

theorem length_decimal_le {n count : Nat} (positive : 0 < count) (bound : n < 10 ^ count) :
    (decimal n).length ≤ count := by
  rw [decimal, List.length_map]
  exact (Nat.length_toDigits_le_iff (by omega) positive).mpr bound

end Decimal

section Value

@[simp] theorem numeralValue_nil : numeralValue [] = 0 := rfl

theorem numeralValue_concat (digits : List UInt8) (digit : UInt8) :
    numeralValue (digits ++ [digit]) = 10 * numeralValue digits + (digit.toNat - 48) := by
  simp only [numeralValue, List.foldl_append, List.foldl_cons, List.foldl_nil]

/-- The value of digits behind others. -/
theorem numeralValue_append (front back : List UInt8) :
    numeralValue (front ++ back) =
      numeralValue front * 10 ^ back.length + numeralValue back := by
  induction back using List.reverseRecOn with
  | nil => simp only [List.append_nil, List.length_nil, Nat.pow_zero, Nat.mul_one,
      numeralValue_nil, Nat.add_zero]
  | append_singleton back digit ih =>
      rw [← List.append_assoc, numeralValue_concat, numeralValue_concat, ih, List.length_append,
        List.length_singleton, Nat.pow_succ, ← Nat.mul_assoc]
      omega

@[simp] theorem numeralValue_decimal (n : Nat) : numeralValue (decimal n) = n := by
  induction n using Nat.strongRecOn with
  | ind n ih =>
      rcases Nat.lt_or_ge n 10 with small | large
      · rw [decimal_of_lt small, ← List.nil_append [digitByte n], numeralValue_concat,
          numeralValue_nil, (digitByte_spec small).2]
        omega
      · rw [decimal_of_ge large, numeralValue_concat, ih (n / 10) (by omega),
          (digitByte_spec (by omega : n % 10 < 10)).2]
        omega

/-- A positive numeral has no leading zero. -/
theorem numeralValue_pos_of_prefix {n : Nat} (positive : 0 < n) {front : List UInt8}
    (isPrefix : front <+: decimal n) (nonempty : front ≠ []) : 0 < numeralValue front := by
  induction n using Nat.strongRecOn with
  | ind n ih =>
      have whole : front = decimal n → 0 < numeralValue front := fun same => by
        rw [same, numeralValue_decimal]
        exact positive
      rcases Nat.lt_or_ge n 10 with small | large
      · rw [decimal_of_lt small] at isPrefix whole
        rcases List.prefix_cons_iff.mp isPrefix with empty | ⟨tail, same, rest⟩
        · exact absurd empty nonempty
        · rw [List.prefix_nil.mp rest] at same
          exact whole same
      · rw [decimal_of_ge large] at isPrefix whole
        rcases List.prefix_concat_iff.mp isPrefix with same | shorter
        · exact whole same
        · exact ih (n / 10) (by omega) (by omega) shorter

/-- Dropping leading digits of a positive numeral lowers its value. -/
theorem numeralValue_lt_of_decimal_eq_append {n : Nat} (positive : 0 < n)
    {front back : List UInt8} (split : decimal n = front ++ back) (nonempty : front ≠ []) :
    numeralValue back < n := by
  have lead := numeralValue_pos_of_prefix positive ⟨back, split.symm⟩ nonempty
  have scaled : 0 < numeralValue front * 10 ^ back.length :=
    Nat.mul_pos lead (Nat.pow_pos (by omega))
  calc numeralValue back
      < numeralValue front * 10 ^ back.length + numeralValue back := by omega
    _ = numeralValue (decimal n) := by rw [split, numeralValue_append]
    _ = n := numeralValue_decimal n

end Value

section Strtol

/-- A value outside `long` saturates. -/
def clampLong (value : Int) : Int := max (-2 ^ 63) (min (2 ^ 63 - 1) value)

/-- An optional sign: whether it was a minus, and the text after it. -/
def readSign : List UInt8 → Bool × List UInt8
  | [] => (false, [])
  | byte :: text =>
      if byte = minusSign then (true, text)
      else if byte = plusSign then (false, text)
      else (false, byte :: text)

/-- `strtol(text, &end, 10)` with a 64-bit `long`: the value and the text from
`end` on, or nothing when no digit was read. -/
def strtol (text : List UInt8) : Option (Int × List UInt8) :=
  let (negative, unsigned) := readSign (text.dropWhile isSpace)
  let digits := unsigned.takeWhile isDigit
  if digits = [] then none
  else
    let magnitude : Int := numeralValue digits
    some (clampLong (if negative then -magnitude else magnitude), unsigned.dropWhile isDigit)

/-- `(int)value`. -/
def intOfLong (value : Int) : Int32 := Int32.ofInt value

/-- Neither a digit nor anything else that `strtol` would consume follows. -/
def NoDigitFirst (text : List UInt8) : Prop := ∀ byte ∈ text.head?, isDigit byte = false

theorem takeWhile_isDigit_append {digits rest : List UInt8}
    (all : ∀ byte ∈ digits, isDigit byte = true) (stop : NoDigitFirst rest) :
    (digits ++ rest).takeWhile isDigit = digits :=
  takeWhile_run all stop

theorem dropWhile_isDigit_append {digits rest : List UInt8}
    (all : ∀ byte ∈ digits, isDigit byte = true) (stop : NoDigitFirst rest) :
    (digits ++ rest).dropWhile isDigit = rest :=
  dropWhile_run all stop

/-- A byte that starts a numeral is neither blank nor a sign. -/
theorem isDigit_plain {byte : UInt8} (digit : isDigit byte = true) :
    isSpace byte = false ∧ byte ≠ minusSign ∧ byte ≠ plusSign := by
  grind [isDigit, isSpace, minusSign, plusSign]

/-- Unsigned digits are read up to the first other byte. -/
theorem strtol_digits {digits rest : List UInt8} (nonempty : digits ≠ [])
    (all : ∀ byte ∈ digits, isDigit byte = true) (stop : NoDigitFirst rest) :
    strtol (digits ++ rest) = some (clampLong (numeralValue digits), rest) := by
  obtain ⟨lead, more, rfl⟩ := List.exists_cons_of_ne_nil nonempty
  obtain ⟨noBlank, noMinus, noPlus⟩ := isDigit_plain (all lead List.mem_cons_self)
  have signed : readSign (((lead :: more) ++ rest).dropWhile isSpace) =
      (false, (lead :: more) ++ rest) := by
    simp only [List.cons_append, List.dropWhile_cons, noBlank, Bool.false_eq_true, ↓reduceIte,
      readSign, noMinus, noPlus]
  simp only [strtol, signed, takeWhile_isDigit_append all stop, dropWhile_isDigit_append all stop,
    List.cons_ne_nil, ↓reduceIte, Bool.false_eq_true]

/-- An `int` is a `long`. -/
theorem clampLong_of_int (value : Int32) : clampLong value.toInt = value.toInt := by
  have upper := value.toInt_lt
  have lower := value.le_toInt
  unfold clampLong
  omega

/-- Reading undoes rendering. -/
theorem strtol_formatInt {value : Int32} (nonneg : 0 ≤ value.toInt) {rest : List UInt8}
    (stop : NoDigitFirst rest) :
    strtol (formatInt value.toInt ++ rest) = some (value.toInt, rest) := by
  rw [formatInt, if_neg (by omega),
    strtol_digits (decimal_ne_nil _) (isDigit_of_mem_decimal _) stop,
    numeralValue_decimal, Int.natAbs_of_nonneg nonneg, clampLong_of_int]

@[simp] theorem intOfLong_toInt (value : Int32) : intOfLong value.toInt = value :=
  Int32.ofInt_toInt value

/-- What may stand before the digits, and whether it makes the number negative. -/
def signs : List (List UInt8 × Bool) := [([], false), ([plusSign], false), ([minusSign], true)]

/-- The number that digits with a sign denote. -/
def signedValue (negative : Bool) (digits : List UInt8) : Int :=
  if negative then -(numeralValue digits : Int) else numeralValue digits

/-- A text begins with one of the signs, or none. -/
theorem readSign_split (text : List UInt8) :
    ∃ sign ∈ signs, (readSign text).1 = sign.2 ∧ text = sign.1 ++ (readSign text).2 := by
  cases text with
  | nil => exact ⟨([], false), List.mem_cons_self, rfl, rfl⟩
  | cons byte text =>
      rw [readSign]
      split
      · next minus =>
          exact ⟨([minusSign], true), .tail _ (.tail _ (.head _)), rfl, congrArg (· :: text) minus⟩
      · split
        · next plus =>
            exact ⟨([plusSign], false), .tail _ (.head _), rfl, congrArg (· :: text) plus⟩
        · exact ⟨([], false), List.mem_cons_self, rfl, rfl⟩

/-- A sign before a digit is read. -/
theorem readSign_sign {sign : List UInt8 × Bool} (member : sign ∈ signs) {text : List UInt8}
    (digit : ∃ byte ∈ text.head?, isDigit byte = true) :
    readSign (sign.1 ++ text) = (sign.2, text) := by
  obtain ⟨lead, first, digit⟩ := digit
  obtain ⟨more, rfl⟩ := List.head?_eq_some_iff.mp first
  obtain ⟨_, noMinus, noPlus⟩ := isDigit_plain digit
  simp only [signs, List.mem_cons, List.not_mem_nil, or_false] at member
  rcases member with rfl | rfl | rfl
  · simp only [List.nil_append, readSign, noMinus, noPlus, ↓reduceIte]
  · rfl
  · rfl

/-- A numeral is an optional sign and all digits that follow. -/
theorem strtol_eq_some_iff {text rest : List UInt8} {value : Int}
    (noBlank : ∀ byte ∈ text.head?, isSpace byte = false) :
    strtol text = some (value, rest) ↔
      ∃ sign ∈ signs, ∃ digits, digits ≠ [] ∧ (∀ byte ∈ digits, isDigit byte = true) ∧
        NoDigitFirst rest ∧ text = sign.1 ++ (digits ++ rest) ∧
        value = clampLong (signedValue sign.2 digits) := by
  have unblank : text.dropWhile isSpace = text := by
    cases text with
    | nil => rfl
    | cons byte text => rw [List.dropWhile_cons, noBlank byte rfl, if_neg Bool.false_ne_true]
  simp only [strtol, unblank]
  constructor
  · intro read
    obtain ⟨sign, member, negative, split⟩ := readSign_split text
    split at read
    · cases read
    · next nonempty =>
        obtain ⟨rfl, rfl⟩ := Prod.mk.inj (Option.some.inj read)
        refine ⟨sign, member, _, nonempty, fun _ => List.mem_takeWhile_imp,
          dropWhile_stops isDigit _, ?_, ?_⟩
        · rw [List.takeWhile_append_dropWhile]
          exact split
        · rw [signedValue, negative]
  · rintro ⟨sign, member, digits, nonempty, all, stop, rfl, rfl⟩
    obtain ⟨lead, more, rfl⟩ := List.exists_cons_of_ne_nil nonempty
    have digit : ∃ byte ∈ (lead :: more ++ rest).head?, isDigit byte = true :=
      ⟨lead, rfl, all lead List.mem_cons_self⟩
    simp only [readSign_sign member digit, takeWhile_isDigit_append all stop,
      dropWhile_isDigit_append all stop, List.cons_ne_nil, ↓reduceIte, signedValue]

/-- White space and a numeral of this value, with or without a sign. -/
def Numeral (spelling : List UInt8) (value : Int) : Prop :=
  ∃ blanks, (∀ byte ∈ blanks, isSpace byte = true) ∧ ∃ sign ∈ signs, ∃ digits, digits ≠ [] ∧
    (∀ byte ∈ digits, isDigit byte = true) ∧ spelling = blanks ++ (sign.1 ++ digits) ∧
      value = signedValue sign.2 digits

/-- Digits alone are a numeral. -/
theorem numeral_of_digits {digits : List UInt8} {value : Int} (nonempty : digits ≠ [])
    (all : ∀ byte ∈ digits, isDigit byte = true) (same : value = signedValue false digits) :
    Numeral digits value :=
  ⟨[], nofun, ([], false), List.mem_cons_self, digits, nonempty, all, rfl, same⟩

/-- `strtol` reads a numeral up to where no further digit follows. -/
theorem strtol_eq_some_iff_numeral {text rest : List UInt8} {value : Int} :
    strtol text = some (value, rest) ↔
      ∃ spelling number, Numeral spelling number ∧ NoDigitFirst rest ∧
        text = spelling ++ rest ∧ value = clampLong number := by
  have unblank : strtol text = strtol (text.dropWhile isSpace) := by
    simp only [strtol, List.dropWhile_idempotent]
  rw [unblank, strtol_eq_some_iff (dropWhile_stops isSpace text)]
  constructor
  · rintro ⟨sign, member, digits, nonempty, all, stop, split, same⟩
    refine ⟨text.takeWhile isSpace ++ (sign.1 ++ digits), _, ⟨_, fun _ => List.mem_takeWhile_imp,
      sign, member, digits, nonempty, all, rfl, rfl⟩, stop, ?_, same⟩
    rw [List.append_assoc, List.append_assoc, ← split, List.takeWhile_append_dropWhile]
  · rintro ⟨_, _, ⟨blanks, blank, sign, member, digits, nonempty, all, rfl, rfl⟩, stop, rfl, same⟩
    refine ⟨sign, member, digits, nonempty, all, stop, ?_, same⟩
    obtain ⟨lead, more, rfl⟩ := List.exists_cons_of_ne_nil nonempty
    have notBlank : ∀ byte ∈ (sign.1 ++ (lead :: more)).head?, isSpace byte = false := by
      have digit := (isDigit_plain (all lead List.mem_cons_self)).1
      simp only [signs, List.mem_cons, List.not_mem_nil, or_false] at member
      rcases member with rfl | rfl | rfl
      · rintro _ ⟨⟩
        exact digit
      · rintro _ ⟨⟩
        rfl
      · rintro _ ⟨⟩
        rfl
    rw [List.append_assoc, dropWhile_run blank, List.append_assoc]
    rw [List.head?_append_of_ne_nil]
    · exact notBlank
    · exact List.append_ne_nil_of_right_ne_nil _ (List.cons_ne_nil lead more)

/-- What `strtol` leaves is a suffix of the text. -/
theorem strtol_suffix {text rest : List UInt8} {value : Int}
    (read : strtol text = some (value, rest)) : rest <:+ text := by
  obtain ⟨spelling, _, _, _, split, _⟩ := strtol_eq_some_iff_numeral.mp read
  exact ⟨spelling, split.symm⟩

/-- A numeral ends in a digit. -/
theorem Numeral.concat {spelling : List UInt8} {value : Int} (numeral : Numeral spelling value) :
    ∃ front digit, spelling = front ++ [digit] ∧ isDigit digit = true := by
  obtain ⟨blanks, _, sign, _, digits, nonempty, all, rfl, _⟩ := numeral
  rcases List.eq_nil_or_concat' digits with rfl | ⟨front, digit, rfl⟩
  · exact absurd rfl nonempty
  · refine ⟨blanks ++ (sign.1 ++ front), digit, ?_, all digit ?_⟩
    · simp only [List.append_assoc]
    · exact List.mem_append_right _ (List.mem_singleton_self digit)

/-- What a numeral is made of. -/
theorem Numeral.bytes {spelling : List UInt8} {value : Int} (numeral : Numeral spelling value) :
    ∀ byte ∈ spelling, isSpace byte = true ∨ byte = plusSign ∨ byte = minusSign ∨
      isDigit byte = true := by
  obtain ⟨blanks, blank, sign, signed, digits, _, all, rfl, _⟩ := numeral
  intro byte member
  rcases List.mem_append.mp member with space | rest
  · exact .inl (blank byte space)
  · rcases List.mem_append.mp rest with mark | digit
    · simp only [signs, List.mem_cons, List.not_mem_nil, or_false] at signed
      rcases signed with rfl | rfl | rfl
      · cases mark
      · exact .inr (.inl (List.mem_singleton.mp mark))
      · exact .inr (.inr (.inl (List.mem_singleton.mp mark)))
    · exact .inr (.inr (.inr (all byte digit)))

/-- A number that is not negative has ten digits at most. -/
theorem length_formatInt_le {value : Int32} (nonneg : 0 ≤ value.toInt) :
    (formatInt value.toInt).length ≤ 10 := by
  have upper := value.toInt_lt
  rw [formatInt, if_neg (by omega)]
  exact length_decimal_le (by omega) (by omega)

end Strtol

end MiniDbms.Foundation
