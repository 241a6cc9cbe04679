import MiniDbms.Foundation.JsonText
import MiniDbms.Foundation.Memory
import MiniDbms.Util.JsonBuilder

/-! # `json_escape_dup` in memory

The function writes into `6 * len + 1` bytes, which every expansion and the terminator that
`snprintf` puts behind it fit (`MiniDbms.Util.escapeInto_encodes`). What it writes is a JSON
string that gives the input back.
-/

namespace MiniDbms.Util

open Foundation

theorem hexValue_hexDigit {digit : Nat} (bound : digit < 16) :
    hexValue (hexDigit (UInt8.ofNat digit)) = some digit := by
  have all : ∀ n < 16, hexValue (hexDigit (UInt8.ofNat n)) = some n := by decide
  exact all digit bound

theorem hexValue_hexDigits {byte : UInt8} (control : byte < 32) :
    hexValue (hexDigit (byte / 16)) = some (byte.toNat / 16) ∧
      hexValue (hexDigit (byte % 16)) = some (byte.toNat % 16) := by
  have bound : byte.toNat < 32 := UInt8.lt_iff_toNat_lt.mp control
  have high : byte / 16 = UInt8.ofNat (byte.toNat / 16) := by
    rw [← UInt8.toNat_inj, UInt8.toNat_div, UInt8.toNat_ofNat_of_lt' (by simp [UInt8.size]; omega)]
    rfl
  have low : byte % 16 = UInt8.ofNat (byte.toNat % 16) := by
    rw [← UInt8.toNat_inj, UInt8.toNat_mod, UInt8.toNat_ofNat_of_lt' (by simp [UInt8.size]; omega)]
    rfl
  rw [high, low]
  exact ⟨hexValue_hexDigit (by omega), hexValue_hexDigit (by omega)⟩

theorem byteOfHex_hexDigits {byte : UInt8} (control : byte < 32) :
    byteOfHex 48 48 (hexDigit (byte / 16)) (hexDigit (byte % 16)) = some byte := by
  have bound : byte.toNat < 32 := UInt8.lt_iff_toNat_lt.mp control
  have zero : hexValue 48 = some 0 := by decide
  obtain ⟨high, low⟩ := hexValue_hexDigits control
  have whole : 4096 * 0 + 256 * 0 + 16 * (byte.toNat / 16) + byte.toNat % 16 = byte.toNat := by
    omega
  simp only [byteOfHex, zero, high, low, Option.bind_eq_bind, Option.bind_some, whole]
  rw [if_pos (by omega), UInt8.ofNat_toNat]
  rfl

/-- The escaped text, when there is memory for it. -/
theorem escaped_of_jsonEscapeDup {text escaped : List UInt8} {heap : Heap}
    (escapes : (jsonEscapeDup text heap).1 = .ok escaped) : escaped = escape text := by
  unfold jsonEscapeDup at escapes
  split at escapes
  · cases escapes
  · obtain ⟨_, after, ran, rest⟩ := Attempt.ok_of_bind escapes
    cases rest
    rfl

/-- What is proved of every byte by looking at its escape. -/
theorem escapeByte_cases {motive : UInt8 → List UInt8 → Prop} (byte : UInt8)
    (letter : ∀ meant letter, simpleEscape letter = some meant → letter ≠ 117 →
      motive meant [92, letter])
    (control : ∀ byte < 32, motive byte
      [92, 117, 48, 48, hexDigit (byte / 16), hexDigit (byte % 16)])
    (plain : ∀ byte, 32 ≤ byte → byte ≠ 34 → byte ≠ 92 → motive byte [byte]) :
    motive byte (escapeByte byte) := by
  unfold escapeByte
  split
  · next same => exact same ▸ letter 34 34 (by decide) (by decide)
  · next notQuote =>
      split
      · next same => exact same ▸ letter 92 92 (by decide) (by decide)
      · next notBackslash =>
          split
          · next same => exact same ▸ letter 10 110 (by decide) (by decide)
          · split
            · next same => exact same ▸ letter 13 114 (by decide) (by decide)
            · split
              · next same => exact same ▸ letter 9 116 (by decide) (by decide)
              · split
                · next small => exact control byte small
                · next large => exact plain byte (UInt8.not_lt.mp large) notQuote notBackslash

/-- An escaped byte is read back. -/
theorem readByteString_escapeByte (byte : UInt8) (rest : List UInt8) :
    readByteString (escapeByte byte ++ rest) = (readByteString rest).map (byte :: ·) := by
  apply escapeByte_cases byte (motive := fun byte escaped =>
    readByteString (escaped ++ rest) = (readByteString rest).map (byte :: ·))
  · intro meant letter known notUnicode
    change readByteString (92 :: letter :: rest) = _
    rw [readByteString.eq_def]
    simp only [↓reduceIte, notUnicode, known, Option.bind_some]
    exact if_neg (by decide)
  · intro byte control
    change readByteString
      (92 :: 117 :: 48 :: 48 :: hexDigit (byte / 16) :: hexDigit (byte % 16) :: rest) = _
    rw [readByteString.eq_def]
    simp only [↓reduceIte, byteOfHex_hexDigits control, Option.bind_some]
    exact if_neg (by decide)
  · intro byte large notQuote notBackslash
    change readByteString (byte :: rest) = _
    rw [readByteString.eq_def]
    simp only [notQuote, notBackslash, ↓reduceIte, UInt8.not_lt.mpr large]

/-- Reading undoes escaping. -/
theorem readByteString_escape (text : List UInt8) :
    readByteString (escape text ++ [34]) = some text := by
  induction text with
  | nil => rfl
  | cons byte text ih =>
      have split : escape (byte :: text) ++ [34] = escapeByte byte ++ (escape text ++ [34]) := by
        rw [escape, List.flatMap_cons, List.append_assoc, ← escape]
      rw [split, readByteString_escapeByte, ih, Option.map_some]

/-- Different texts are escaped differently. -/
theorem escape_injective {text other : List UInt8} (same : escape text = escape other) :
    text = other := by
  have read := readByteString_escape text
  rw [same, readByteString_escape] at read
  exact (Option.some.inj read).symm

theorem hasUnescapedQuote_plain {byte : UInt8} (notQuote : byte ≠ 34) (notBackslash : byte ≠ 92)
    (text : List UInt8) : hasUnescapedQuote (byte :: text) = hasUnescapedQuote text := by
  rw [hasUnescapedQuote.eq_def]
  simp only [notQuote, notBackslash, ↓reduceIte, decide_false, Bool.false_or]

/-- A hexadecimal digit is none of the bytes that need an escape. -/
theorem plain_of_hexValue {byte : UInt8} {value : Nat} (hex : hexValue byte = some value) :
    32 ≤ byte ∧ byte ≠ 34 ∧ byte ≠ 92 := by
  refine ⟨?_, ?_, ?_⟩
  · by_contra small
    have absent : hexValue byte = none := by grind [hexValue, isDigit]
    rw [absent] at hex
    cases hex
  · rintro rfl
    cases hex
  · rintro rfl
    cases hex

/-- An escaped byte leaves no quote. -/
theorem hasUnescapedQuote_escapeByte (byte : UInt8) (rest : List UInt8) :
    hasUnescapedQuote (escapeByte byte ++ rest) = hasUnescapedQuote rest := by
  apply escapeByte_cases byte (motive := fun _ escaped =>
    hasUnescapedQuote (escaped ++ rest) = hasUnescapedQuote rest)
  · intro meant letter known notUnicode
    change hasUnescapedQuote (92 :: letter :: rest) = _
    rw [hasUnescapedQuote.eq_def]
    rfl
  · intro byte control
    obtain ⟨high, low⟩ := hexValue_hexDigits control
    obtain ⟨_, highQuote, highBackslash⟩ := plain_of_hexValue high
    obtain ⟨_, lowQuote, lowBackslash⟩ := plain_of_hexValue low
    change hasUnescapedQuote
      (92 :: 117 :: 48 :: 48 :: hexDigit (byte / 16) :: hexDigit (byte % 16) :: rest) = _
    rw [hasUnescapedQuote.eq_def]
    change hasUnescapedQuote (48 :: 48 :: hexDigit (byte / 16) :: hexDigit (byte % 16) :: rest) = _
    rw [hasUnescapedQuote_plain (by decide) (by decide),
      hasUnescapedQuote_plain (by decide) (by decide),
      hasUnescapedQuote_plain highQuote highBackslash,
      hasUnescapedQuote_plain lowQuote lowBackslash]
  · intro byte large notQuote notBackslash
    exact hasUnescapedQuote_plain notQuote notBackslash rest

/-- Nor does an escaped text. -/
theorem hasUnescapedQuote_escape (text : List UInt8) : hasUnescapedQuote (escape text) = false := by
  induction text with
  | nil => rfl
  | cons byte text ih =>
      rw [escape, List.flatMap_cons, hasUnescapedQuote_escapeByte]
      exact ih

/-- No control character is left. -/
theorem le_of_mem_escape {text : List UInt8} : ∀ byte ∈ escape text, 32 ≤ byte := by
  have one : ∀ byte, ∀ escaped ∈ escapeByte byte, 32 ≤ escaped := by
    intro byte
    apply escapeByte_cases byte (motive := fun _ bytes => ∀ escaped ∈ bytes, 32 ≤ escaped)
    · intro meant letter known notUnicode
      have letters : ∀ letter ∈ [34, 92, 47, 98, 102, 110, 114, 116], (32 : UInt8) ≤ letter := by
        decide +kernel
      have isLetter : letter ∈ [34, 92, 47, 98, 102, 110, 114, 116] := by
        have known := Option.isSome_of_eq_some known
        simp only [simpleEscape, List.lookup_isSome_iff] at known
        simpa using known
      simp only [List.forall_mem_cons, letters letter isLetter, List.not_mem_nil,
        IsEmpty.forall_iff, implies_true, and_true]
      decide
    · intro byte control
      obtain ⟨high, low⟩ := hexValue_hexDigits control
      simp only [List.forall_mem_cons, (plain_of_hexValue high).1, (plain_of_hexValue low).1,
        List.not_mem_nil, IsEmpty.forall_iff, implies_true, and_true]
      decide
    · intro byte large _ _
      exact List.forall_mem_singleton.mpr large
  intro byte member
  obtain ⟨original, _, inside⟩ := List.mem_flatMap.mp member
  exact one original byte inside

/-- `snprintf(out + pos, room, ..)`, where `formatted` is what the format and its arguments
print to: as much of it as there is room for, and a terminator. -/
def snprintf (out : Block UInt8) (pos room : Nat) (formatted : List UInt8) :
    Option (Block UInt8 × Nat) := do
  let out ← if room = 0 then some out else out.writeAll pos (formatted.take (room - 1) ++ [0])
  return (out, formatted.length)

/-- `out[pos++] = ..`, once for each of the bytes. -/
def storeBytes (out : Block UInt8) (pos : Nat) (bytes : List UInt8) :
    Option (Block UInt8 × Nat) := do
  let out ← out.writeAll pos bytes
  return (out, pos + bytes.length)

/-- The `switch` of `json_escape_dup`. -/
def escapeCase (cap : Nat) (ch : UInt8) (out : Block UInt8) (pos : Nat) :
    Option (Block UInt8 × Nat) :=
  if ch = 34 then storeBytes out pos [92, 34]
  else if ch = 92 then storeBytes out pos [92, 92]
  else if ch = 10 then storeBytes out pos [92, 110]
  else if ch = 13 then storeBytes out pos [92, 114]
  else if ch = 9 then storeBytes out pos [92, 116]
  else if ch < 32 then
    -- `cap - pos` is a `size_t`.
    if cap < pos then none
    else do
      let (out, written) ← snprintf out pos (cap - pos)
        [92, 117, 48, 48, hexDigit (ch / 16), hexDigit (ch % 16)]
      return (out, pos + written)
  else storeBytes out pos [ch]

/-- The loop of `json_escape_dup`. -/
def escapeLoop (input : Block UInt8) (cap i : Nat) (out : Block UInt8) (pos : Nat) :
    Option (Block UInt8 × Nat) :=
  if i < input.size then do
    let ch ← input.read i
    if ch = 0 then return (out, pos)
    else do
      let (out, pos) ← escapeCase cap ch out pos
      escapeLoop input cap (i + 1) out pos
  else none
termination_by input.size - i

/-- `json_escape_dup` when `malloc` succeeds: what it has written into the new object. -/
def escapeInto (input : Block UInt8) : Option (Block UInt8) := do
  let text ← input.string 0
  let cap := text.length * 6 + 1
  -- The capacity is a `size_t`.
  if sizeMax < cap then none
  else do
    let (out, pos) ← escapeLoop input cap 0 (Block.fresh cap) 0
    out.write pos 0

section Memory

variable {input out : Block UInt8} {written rest : List UInt8}

/-- Bytes are stored behind those written, where there is room. -/
theorem storeBytes_eq (holds : out.Holds written) {bytes : List UInt8}
    (room : written.length + bytes.length ≤ out.size) :
    ∃ next, storeBytes out written.length bytes = some (next, (written ++ bytes).length) ∧
      next.Holds (written ++ bytes) ∧ next.size = out.size := by
  obtain ⟨next, ran, holds, same⟩ := holds.writeAll room
  refine ⟨next, ?_, holds, same⟩
  rw [storeBytes, ran, List.length_append]
  rfl

/-- The digits and the terminator behind them. -/
theorem snprintf_eq (holds : out.Holds written) {formatted : List UInt8}
    (six : formatted.length = 6) (room : written.length + 7 ≤ out.size) :
    ∃ next, (do
        let (out, count) ← snprintf out written.length (out.size - written.length) formatted
        return (out, written.length + count)) = some (next, (written ++ formatted).length) ∧
      next.Holds (written ++ formatted) ∧ next.size = out.size := by
  have all : formatted.take (out.size - written.length - 1) = formatted :=
    List.take_of_length_le (by omega)
  obtain ⟨next, ran, terminated, same⟩ := @Block.Holds.writeAll _ _ _ (formatted ++ [0]) holds (by
    rw [List.length_append, List.length_singleton, six]
    omega)
  rw [← List.append_assoc] at terminated
  refine ⟨next, ?_, terminated.of_append, same⟩
  rw [snprintf, if_neg (by omega), all, ran, List.length_append]
  rfl

/-- Every case writes the escape of the byte, given room for the longest and a terminator. -/
theorem escapeCase_eq (holds : out.Holds written) (ch : UInt8)
    (room : written.length + 7 ≤ out.size) :
    ∃ next, escapeCase out.size ch out written.length =
        some (next, (written ++ escapeByte ch).length) ∧
      next.Holds (written ++ escapeByte ch) ∧ next.size = out.size := by
  have fits : ∀ bytes : List UInt8, bytes.length ≤ 6 →
      written.length + bytes.length ≤ out.size := by
    intro bytes short
    omega
  unfold escapeCase escapeByte
  split
  · exact storeBytes_eq holds (fits _ (by decide))
  · split
    · exact storeBytes_eq holds (fits _ (by decide))
    · split
      · exact storeBytes_eq holds (fits _ (by decide))
      · split
        · exact storeBytes_eq holds (fits _ (by decide))
        · split
          · exact storeBytes_eq holds (fits _ (by decide))
          · split
            · rw [if_neg (by omega)]
              exact snprintf_eq holds rfl room
            · exact storeBytes_eq holds (fits [ch] (by rw [List.length_singleton]; omega))

/-- The loop writes the escape of what is left of the input. -/
theorem escapeLoop_eq {i : Nat} (points : input.Points i rest) (holds : out.Holds written)
    (room : written.length + 6 * rest.length + 1 ≤ out.size) :
    ∃ next, escapeLoop input out.size i out written.length =
        some (next, (written ++ escape rest).length) ∧
      next.Holds (written ++ escape rest) ∧ next.size = out.size := by
  induction rest generalizing i out written with
  | nil =>
      refine ⟨out, ?_, by rwa [escape, List.flatMap_nil, List.append_nil], rfl⟩
      rw [escapeLoop, if_pos points.inside,
        points.read, escape, List.flatMap_nil, List.append_nil]
      rfl
  | cons ch rest ih =>
      rw [List.length_cons] at room
      have notNul : ch ≠ 0 := by
        rintro rfl
        exact points.1 List.mem_cons_self
      obtain ⟨middle, one, held, same⟩ := escapeCase_eq holds ch (by omega)
      have short := length_escapeByte_le ch
      obtain ⟨next, others, heldAll, same'⟩ := ih points.next held (by
        rw [same, List.length_append]
        omega)
      refine ⟨next, ?_, by rwa [escape, List.flatMap_cons, ← List.append_assoc], same'.trans same⟩
      rw [same] at others
      rw [escapeLoop, if_pos points.inside,
        points.read, Option.bind_eq_bind, Option.bind_some, List.headD_cons, if_neg notNul, one,
        escape, List.flatMap_cons, ← List.append_assoc]
      exact others

/-- The function fills the new object with the escaped text and its terminator. -/
theorem escapeInto_holds {text : CString} (short : text.bytes.length ≤ (sizeMax - 1) / 6) :
    ∃ out, escapeInto (Block.ofString text) = some out ∧
      out.size = 6 * text.bytes.length + 1 ∧ out.Holds (escape text.bytes ++ [0]) := by
  have points := Block.points_ofString text
  have size := @Block.size_fresh UInt8 (text.bytes.length * 6 + 1)
  obtain ⟨filled, ran, holds, same⟩ := escapeLoop_eq points
    (Block.holds_nil (Block.fresh (text.bytes.length * 6 + 1))) (by
      rw [size, List.length_nil]
      omega)
  rw [size, List.nil_append, List.length_nil] at ran
  rw [List.nil_append] at holds
  have expanded := length_escape_le text.bytes
  obtain ⟨out, terminated, whole, same'⟩ := holds.write (by
    rw [same, size]
    omega) 0
  refine ⟨out, ?_, by rw [same', same, size, Nat.mul_comm], whole⟩
  have cap : ¬ sizeMax < text.bytes.length * 6 + 1 := by
    simp only [sizeMax] at short ⊢
    omega
  rw [escapeInto, points.string, Option.bind_eq_bind, Option.bind_some]
  simp only [if_neg cap]
  rw [ran]
  exact terminated

end Memory

/-- What a JSON encoder must give for a text: memory that holds the encoding and its
terminator, and an encoding that is the inside of a JSON string for the text. -/
structure Encodes (text : CString) (out : Block UInt8) (encoded : List UInt8) : Prop where
  size : out.size = 6 * text.bytes.length + 1
  holds : out.Holds (encoded ++ [0])
  printable : ∀ byte ∈ encoded, 32 ≤ byte
  quotes : hasUnescapedQuote encoded = false
  decodes : readByteString (encoded ++ [34]) = some text.bytes

/-- **`json_escape_dup` is a JSON encoder that fits its buffer.** For every string that it
accepts, no write is outside the buffer, and what is written encodes the string; different
strings are encoded differently. -/
theorem escapeInto_encodes {text : CString} (short : text.bytes.length ≤ (sizeMax - 1) / 6) :
    (∃ out, escapeInto (Block.ofString text) = some out ∧ Encodes text out (escape text.bytes)) ∧
      (∀ heap escaped, (jsonEscapeDup text.bytes heap).1 = .ok escaped →
        escaped = escape text.bytes) ∧
      ∀ other : CString, escape other.bytes = escape text.bytes → other = text := by
  obtain ⟨out, ran, size, holds⟩ := escapeInto_holds short
  refine ⟨⟨out, ran, ?_⟩, fun _ _ => escaped_of_jsonEscapeDup, fun other equal => ?_⟩
  · exact {
      size := size
      holds := holds
      printable := le_of_mem_escape
      quotes := hasUnescapedQuote_escape text.bytes
      decodes := readByteString_escape text.bytes }
  · have bytes := escape_injective equal
    rw [← CString.ofBuffer_self other, bytes, CString.ofBuffer_self]

/-- A name with a quote and a control character. -/
theorem escapeInto_encodes_control :
    (∃ out, escapeInto (Block.ofString (CString.ofBuffer [97, 34, 1])) = some out ∧
      Encodes (CString.ofBuffer [97, 34, 1]) out (ascii "a\\\"\\u0001")) ∧
      (∀ heap escaped, (jsonEscapeDup [97, 34, 1] heap).1 = .ok escaped →
        escaped = ascii "a\\\"\\u0001") ∧
      ∀ other : CString, escape other.bytes = ascii "a\\\"\\u0001" →
        other = CString.ofBuffer [97, 34, 1] :=
  @escapeInto_encodes (CString.ofBuffer [97, 34, 1]) (by decide)

end MiniDbms.Util
