import Mathlib.Data.List.TakeWhile
import Mathlib.Tactic.Common

/-! # Bytes, C strings and the C locale

A C string is a list of nonzero bytes. A string held in a `char[limit + 1]`
buffer has at most `limit` of them; copying with `snprintf` cuts the source to
that length.
-/

namespace MiniDbms.Foundation

/-- The bytes of an ASCII literal. -/
def ascii (text : String) : List UInt8 := text.toList.map Char.toUInt8

def lineFeed : UInt8 := 10
def carriageReturn : UInt8 := 13
def comma : UInt8 := 44
def minusSign : UInt8 := 45
def plusSign : UInt8 := 43

/-- `isspace` in the C locale. -/
def isSpace (byte : UInt8) : Bool := byte == 32 || (9 ≤ byte && byte ≤ 13)

/-- `isdigit`. -/
def isDigit (byte : UInt8) : Bool := 48 ≤ byte && byte ≤ 57

/-- `isalpha` in the C locale. -/
def isAlpha (byte : UInt8) : Bool := (65 ≤ byte && byte ≤ 90) || (97 ≤ byte && byte ≤ 122)

/-- `isalnum` in the C locale. -/
def isAlnum (byte : UInt8) : Bool := isAlpha byte || isDigit byte

/-- `tolower` in the C locale. -/
def toLower (byte : UInt8) : UInt8 := if 65 ≤ byte && byte ≤ 90 then byte + 32 else byte

/-- `strcasecmp(left, right) == 0`. -/
def strcasecmpEq (left right : List UInt8) : Bool := left.map toLower == right.map toLower

/-- `strncasecmp(text, word, strlen(word)) == 0`. -/
def strncasecmpEq (text word : List UInt8) : Bool :=
  strcasecmpEq (text.take word.length) word

section Runs

variable {Symbol : Type} {test : Symbol → Bool} {run rest : List Symbol}

/-- A run ends where what follows does not continue it. -/
theorem takeWhile_run (all : ∀ symbol ∈ run, test symbol = true)
    (stop : ∀ symbol ∈ rest.head?, test symbol = false) : (run ++ rest).takeWhile test = run := by
  rw [List.takeWhile_append_of_pos all]
  cases rest with
  | nil => rw [List.takeWhile_nil, List.append_nil]
  | cons symbol rest =>
      have stopped : test symbol = false := stop symbol rfl
      rw [List.takeWhile_cons, stopped, if_neg Bool.false_ne_true, List.append_nil]

/-- A run of symbols that stops is dropped whole. -/
theorem dropWhile_run (all : ∀ symbol ∈ run, test symbol = true)
    (stop : ∀ symbol ∈ rest.head?, test symbol = false) : (run ++ rest).dropWhile test = rest := by
  rw [List.dropWhile_append_of_pos all]
  cases rest with
  | nil => rfl
  | cons symbol rest =>
      have stopped : test symbol = false := stop symbol rfl
      rw [List.dropWhile_cons, stopped, if_neg Bool.false_ne_true]

/-- What is left does not go on with the run. -/
theorem dropWhile_stops (test : Symbol → Bool) (text : List Symbol) :
    ∀ symbol ∈ (text.dropWhile test).head?, test symbol = false := by
  intro symbol first
  have stopped := List.head?_dropWhile_not test text
  rw [Option.mem_def.mp first] at stopped
  exact stopped

/-- The first place of a symbol is unique. -/
theorem eq_of_append_cons {stop : Symbol} {front other : List Symbol} {back more : List Symbol}
    (absent : stop ∉ front) (absent' : stop ∉ other)
    (same : front ++ stop :: back = other ++ stop :: more) : front = other ∧ back = more := by
  induction front generalizing other with
  | nil =>
      cases other with
      | nil => exact ⟨rfl, (List.cons.inj same).2⟩
      | cons symbol other =>
          exact absurd (List.mem_cons.mpr (.inl (List.cons.inj same).1)) absent'
  | cons symbol front ih =>
      cases other with
      | nil => exact absurd (List.mem_cons.mpr (.inl (List.cons.inj same).1.symm)) absent
      | cons symbol' other =>
          obtain ⟨rfl, tails⟩ := List.cons.inj same
          obtain ⟨rfl, rfl⟩ := ih (fun member => absent (List.mem_cons_of_mem _ member))
            (fun member => absent' (List.mem_cons_of_mem _ member)) tails
          exact ⟨rfl, rfl⟩

end Runs

/-- A NUL-terminated string. -/
structure CString where
  bytes : List UInt8
  noNul : 0 ∉ bytes
  deriving DecidableEq

/-- A NUL-terminated string in a buffer of `limit + 1` bytes. -/
structure BoundedString (limit : Nat) extends CString where
  fits : bytes.length ≤ limit
  deriving DecidableEq

/-- The NUL-terminated string at the start of a buffer. -/
def CString.ofBuffer (buffer : List UInt8) : CString where
  bytes := buffer.takeWhile (· != 0)
  noNul := fun member => by simpa using List.mem_takeWhile_imp member

/-- A buffer without NUL is a string as it stands. -/
theorem CString.ofBuffer_bytes {buffer : List UInt8} (noNul : 0 ∉ buffer) :
    (CString.ofBuffer buffer).bytes = buffer := by
  refine List.takeWhile_eq_self_iff.mpr fun byte member => bne_iff_ne.mpr ?_
  rintro rfl
  exact noNul member

@[simp] theorem CString.ofBuffer_self (text : CString) : CString.ofBuffer text.bytes = text := by
  have same := CString.ofBuffer_bytes text.noNul
  cases text
  generalize CString.ofBuffer _ = other at same ⊢
  cases other
  cases same
  rfl

/-- `snprintf(buffer, limit + 1, "%s", text)`. -/
def CString.truncate (text : CString) (limit : Nat) : BoundedString limit where
  bytes := text.bytes.take limit
  noNul := fun member => text.noNul (List.mem_of_mem_take member)
  fits := List.length_take_le limit text.bytes

namespace BoundedString

variable {limit : Nat}

/-- Bounded strings with the same bytes are the same. -/
@[ext] theorem ext_bytes {left right : BoundedString limit} (same : left.bytes = right.bytes) :
    left = right := by
  obtain ⟨⟨leftBytes, _⟩, _⟩ := left
  obtain ⟨⟨rightBytes, _⟩, _⟩ := right
  cases same
  rfl

theorem truncate_bytes_of_le {text : CString} (short : text.bytes.length ≤ limit) :
    (text.truncate limit).bytes = text.bytes :=
  List.take_of_length_le short

/-- Bytes that fit and have no NUL are stored as they are. -/
theorem truncate_ofBuffer {bytes : List UInt8} (noNul : 0 ∉ bytes) (fits : bytes.length ≤ limit) :
    ((CString.ofBuffer bytes).truncate limit).bytes = bytes := by
  rw [truncate_bytes_of_le, CString.ofBuffer_bytes noNul]
  rwa [CString.ofBuffer_bytes noNul]

/-- A string that came out of the buffer goes back into it unchanged. -/
@[simp] theorem truncate_toCString (text : BoundedString limit) :
    text.toCString.truncate limit = text :=
  ext_bytes (truncate_bytes_of_le text.fits)

end BoundedString

end MiniDbms.Foundation
