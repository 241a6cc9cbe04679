import MiniDbms.Foundation.Allocation
import MiniDbms.Foundation.Bytes

/-! # The JSON builder of `util.c`

A builder's text is `data[0..len)`; the terminator at `data[len]` always fits.
The functions fail only when memory is refused, provided that the text appended
is far from the size of the address space, and otherwise append exactly what
they were asked to (`MiniDbms.Util.yields_append`,
`MiniDbms.Util.yields_appendf`, `MiniDbms.Util.yields_appendString`).
-/

namespace MiniDbms.Util

open Foundation

structure JsonBuilder where
  data : List UInt8
  cap : Nat
  fits : data.length < cap
  deriving DecidableEq

/-- `json_builder_init`. -/
def jsonBuilderInit : Alloc JsonBuilder := do
  Attempt.malloc 256
  return { data := [], cap := 256, fits := by decide }

/-- The loop of `json_builder_reserve` that doubles `next_cap` up to `needed`. -/
def growCap (needed cap : Nat) (positive : 0 < cap) : Option Nat :=
  if cap < needed then
    if cap > sizeMax / 2 then none
    else growCap needed (cap * 2) (double_pos positive)
  else some cap
termination_by needed - cap

/-- The room that is found is enough. -/
theorem le_of_growCap {needed cap grown : Nat} (positive : 0 < cap)
    (result : growCap needed cap positive = some grown) : needed ≤ grown := by
  fun_induction growCap needed cap positive with
  | case1 => cases result
  | case2 cap positive short half ih => exact ih result
  | case3 cap positive enough =>
      cases result
      omega

/-- `json_builder_reserve`: the same text with room for `extra` more bytes and
the terminator. -/
def jsonBuilderReserve (builder : JsonBuilder) (extra : Nat) :
    Alloc { next : JsonBuilder // next.data = builder.data ∧
      builder.data.length + extra + 1 ≤ next.cap } :=
  if extra > sizeMax - builder.data.length - 1 then Attempt.fail ()
  else
    let needed := builder.data.length + extra + 1
    if enough : needed ≤ builder.cap then return ⟨builder, rfl, enough⟩
    else
      match grown : growCap needed builder.cap (Nat.zero_lt_of_lt builder.fits) with
      | none => Attempt.fail ()
      | some nextCap => do
          Attempt.malloc nextCap
          have larger := le_of_growCap _ grown
          return ⟨{ builder with cap := nextCap, fits := by omega }, rfl, larger⟩

/-- `json_builder_append`. -/
def jsonBuilderAppend (builder : JsonBuilder) (text : List UInt8) : Alloc JsonBuilder := do
  let ⟨next, same, room⟩ ← jsonBuilderReserve builder text.length
  return { data := next.data ++ text
           cap := next.cap
           fits := by rw [List.length_append, same]; omega }

/-- `json_builder_appendf`, where `formatted` is what the format and its
arguments print to. -/
def jsonBuilderAppendf (builder : JsonBuilder) (formatted : List UInt8) : Alloc JsonBuilder :=
  if room : builder.data.length + formatted.length < builder.cap then
    return { data := builder.data ++ formatted
             cap := builder.cap
             fits := by rwa [List.length_append] }
  else do
    -- `vsnprintf` cut the text short: make room and print it again.
    let ⟨next, same, grown⟩ ← jsonBuilderReserve builder (formatted.length + 1)
    have : next.data.length + formatted.length < next.cap := by rw [same]; omega
    jsonBuilderAppendf next formatted
termination_by if builder.data.length + formatted.length < builder.cap then 0 else 1
decreasing_by simp only [this, room, ↓reduceIte]; omega

/-- The hexadecimal digit that `%x` prints. -/
def hexDigit (digit : UInt8) : UInt8 := if digit < 10 then digit + 48 else digit + 87

/-- What `json_escape_dup` writes for one byte. -/
def escapeByte (byte : UInt8) : List UInt8 :=
  if byte = 34 then [92, 34]
  else if byte = 92 then [92, 92]
  else if byte = 10 then [92, 110]
  else if byte = 13 then [92, 114]
  else if byte = 9 then [92, 116]
  else if byte < 32 then [92, 117, 48, 48, hexDigit (byte / 16), hexDigit (byte % 16)]
  else [byte]

/-- The text of `json_escape_dup`. -/
def escape (text : List UInt8) : List UInt8 := text.flatMap escapeByte

/-- `json_escape_dup`. -/
def jsonEscapeDup (text : List UInt8) : Alloc (List UInt8) :=
  if text.length > (sizeMax - 1) / 6 then Attempt.fail ()
  else do
    Attempt.malloc (text.length * 6 + 1)
    return escape text

/-- `json_builder_append_string`. -/
def jsonBuilderAppendString (builder : JsonBuilder) (text : List UInt8) : Alloc JsonBuilder := do
  let escaped ← jsonEscapeDup text
  let builder ← jsonBuilderAppend builder (ascii "\"")
  let builder ← jsonBuilderAppend builder escaped
  jsonBuilderAppend builder (ascii "\"")

/-- The builder's memory was granted. -/
def JsonBuilder.Held (builder : JsonBuilder) : Prop :=
  256 ≤ builder.cap ∧ builder.cap ≤ ptrdiffMax

/-- Text this short never exhausts `size_t` on top of memory that was granted. -/
def shortText : Nat := 2 ^ 32

/-- A builder whose memory was granted and whose text is `text`. -/
def Reads (text : List UInt8) (builder : JsonBuilder) : Prop :=
  builder.data = text ∧ builder.Held

section Specifications

variable {builder : JsonBuilder} {text extension : List UInt8}

theorem yields_init : Attempt.Yields jsonBuilderInit (Reads []) :=
  (Attempt.Yields.malloc 256).bind fun _ _ =>
    Attempt.Yields.pure ⟨rfl, Nat.le_refl _, by decide⟩

/-- Doubling stops before `size_t` runs out. -/
theorem growCap_short {needed cap : Nat} (positive : 0 < cap) (half : needed ≤ sizeMax / 2 + 1) :
    ∃ grown, growCap needed cap positive = some grown ∧ cap ≤ grown := by
  fun_induction growCap needed cap positive with
  | case1 cap positive short tooLarge => omega
  | case2 cap positive short fitting ih =>
      obtain ⟨grown, result, larger⟩ := ih
      exact ⟨grown, result, by omega⟩
  | case3 cap positive enough => exact ⟨cap, rfl, Nat.le_refl _⟩

/-- One doubling of granted memory is always possible. -/
theorem growCap_double {needed cap : Nat} (positive : 0 < cap) (granted : cap ≤ sizeMax / 2)
    (enough : needed ≤ cap * 2) :
    ∃ grown, growCap needed cap positive = some grown ∧ cap ≤ grown := by
  rw [growCap]
  split
  · rw [if_neg (by omega), growCap, if_neg (by omega)]
    exact ⟨cap * 2, rfl, by omega⟩
  · exact ⟨cap, rfl, Nat.le_refl _⟩

/-- There is room to be found for a short text. -/
theorem JsonBuilder.Held.growCap {extra : Nat} (held : builder.Held) (short : extra ≤ shortText) :
    ∃ grown, Util.growCap (builder.data.length + extra + 1) builder.cap
      (Nat.zero_lt_of_lt builder.fits) = some grown ∧ builder.cap ≤ grown := by
  have fits := builder.fits
  obtain ⟨_, upper⟩ := held
  simp only [ptrdiffMax, shortText] at upper short
  rcases Nat.lt_or_ge (builder.cap * 2) (builder.data.length + extra + 1) with more | enough
  · exact growCap_short _ (by simp only [sizeMax]; omega)
  · exact growCap_double _ (by simp only [sizeMax]; omega) enough

/-- Room is reserved and the text kept. -/
theorem yields_reserve {extra : Nat} (held : builder.Held) (short : extra ≤ shortText) :
    Attempt.Yields (jsonBuilderReserve builder extra) fun next => Reads builder.data next.1 := by
  obtain ⟨grown, result, larger⟩ := held.growCap short
  unfold jsonBuilderReserve
  have fits := builder.fits
  obtain ⟨lower, upper⟩ := held
  simp only [ptrdiffMax, shortText] at upper short
  rw [if_neg (by simp only [sizeMax]; omega)]
  dsimp only
  split
  · exact Attempt.Yields.pure ⟨rfl, lower, upper⟩
  · split
    · next impossible => rw [result] at impossible; cases impossible
    · next nextCap same =>
        rw [result] at same
        cases same
        exact (Attempt.Yields.malloc grown).bind fun _ granted =>
          Attempt.Yields.pure ⟨rfl, lower.trans larger, granted⟩

/-- A short text is appended. -/
theorem yields_append (reads : Reads text builder) (short : extension.length ≤ shortText) :
    Attempt.Yields (jsonBuilderAppend builder extension) (Reads (text ++ extension)) := by
  obtain ⟨same, held⟩ := reads
  refine (yields_reserve held short).bind fun next after => ?_
  obtain ⟨next, kept, room⟩ := next
  exact Attempt.Yields.pure ⟨congrArg (· ++ extension) (after.1.trans same), after.2⟩

/-- So is a short formatted text. -/
theorem yields_appendf (reads : Reads text builder) (short : extension.length < shortText) :
    Attempt.Yields (jsonBuilderAppendf builder extension) (Reads (text ++ extension)) := by
  obtain ⟨same, held⟩ := reads
  rw [jsonBuilderAppendf]
  split
  · exact Attempt.Yields.pure ⟨congrArg (· ++ extension) same, held⟩
  · refine (yields_reserve held short).bind fun next after => ?_
    obtain ⟨next, kept, room⟩ := next
    -- The second time the text fits.
    have fits : next.data.length + extension.length < next.cap := by rw [kept]; omega
    change Attempt.Yields (jsonBuilderAppendf next extension) _
    rw [jsonBuilderAppendf, dif_pos fits]
    exact Attempt.Yields.pure ⟨congrArg (· ++ extension) (after.1.trans same), after.2⟩

/-- A byte is escaped with six bytes at most. -/
theorem length_escapeByte_le (byte : UInt8) : (escapeByte byte).length ≤ 6 := by
  unfold escapeByte
  repeat' split
  all_goals simp only [List.length_cons, List.length_nil, Nat.reduceAdd, Nat.reduceLeDiff]

/-- So a text grows to six times its length at most. -/
theorem length_escape_le (text : List UInt8) : (escape text).length ≤ 6 * text.length := by
  induction text with
  | nil => exact Nat.le_refl 0
  | cons byte text ih =>
      have one := length_escapeByte_le byte
      rw [escape] at ih ⊢
      rw [List.flatMap_cons, List.length_append, List.length_cons]
      omega

/-- A short text is escaped. -/
theorem yields_escapeDup (short : text.length ≤ shortText) :
    Attempt.Yields (jsonEscapeDup text) (· = escape text) := by
  unfold jsonEscapeDup
  simp only [shortText] at short
  rw [if_neg (by simp only [sizeMax]; omega)]
  exact (Attempt.Yields.malloc _).bind fun _ _ => Attempt.Yields.pure rfl

/-- A short string is appended in quotes. -/
theorem yields_appendString (reads : Reads text builder)
    (short : 6 * extension.length ≤ shortText) :
    Attempt.Yields (jsonBuilderAppendString builder extension)
      (Reads (text ++ ascii "\"" ++ escape extension ++ ascii "\"")) := by
  have bounded := length_escape_le extension
  refine (yields_escapeDup (by omega)).bind fun escaped same => ?_
  subst same
  refine (yields_append reads (by decide)).bind fun opened openedReads => ?_
  refine (yields_append openedReads (by omega)).bind fun filled filledReads => ?_
  exact yields_append filledReads (by decide)

end Specifications

end MiniDbms.Util
