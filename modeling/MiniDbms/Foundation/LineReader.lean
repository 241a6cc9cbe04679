import Mathlib.Data.List.Induction
import MiniDbms.Foundation.Bytes

/-! # Reading a stream with `fgets`

A buffer of `limit + 1` bytes receives at most `limit` bytes of the stream and
nothing beyond a line feed. `MiniDbms.Foundation.chunks` is the sequence of
strings a loop over `fgets` sees (`MiniDbms.Foundation.chunks_eq_fgets`).

The chunks of a stream followed by another are those completed in the first and
those of the second read on from the unfinished rest of the first
(`MiniDbms.Foundation.chunksFrom_append`). The unfinished rest is empty exactly
when the number of bytes after the last line feed is a multiple of the limit
(`MiniDbms.Foundation.unfinished_eq_nil_iff`).
-/

namespace MiniDbms.Foundation

/-- The bytes that `fgets` stores when at most `limit` fit, and those it leaves. -/
def takeChunk : Nat → List UInt8 → List UInt8 × List UInt8
  | 0, stream => ([], stream)
  | _ + 1, [] => ([], [])
  | limit + 1, byte :: stream =>
      if byte = lineFeed then ([byte], stream)
      else
        let (chunk, rest) := takeChunk limit stream
        (byte :: chunk, rest)

/-- `fgets(buffer, limit + 1, stream)`: nothing at the end of the stream. -/
def fgets (limit : Nat) (stream : List UInt8) : Option (List UInt8 × List UInt8) :=
  if stream = [] then none else some (takeChunk limit stream)

/-- The strings read from the stream when `pending` is already in the buffer. -/
def chunksFrom (limit : Nat) : List UInt8 → List UInt8 → List (List UInt8)
  | pending, [] => if pending = [] then [] else [pending]
  | pending, byte :: stream =>
      if byte = lineFeed ∨ pending.length + 1 = limit then
        (pending ++ [byte]) :: chunksFrom limit [] stream
      else chunksFrom limit (pending ++ [byte]) stream

/-- The strings that a loop over `fgets` reads. -/
def chunks (limit : Nat) (stream : List UInt8) : List (List UInt8) := chunksFrom limit [] stream

/-- The strings of `chunksFrom` that a line feed or a full buffer completed. -/
def completed (limit : Nat) : List UInt8 → List UInt8 → List (List UInt8)
  | _, [] => []
  | pending, byte :: stream =>
      if byte = lineFeed ∨ pending.length + 1 = limit then
        (pending ++ [byte]) :: completed limit [] stream
      else completed limit (pending ++ [byte]) stream

/-- The buffer when the stream ends before the string is complete. -/
def unfinished (limit : Nat) : List UInt8 → List UInt8 → List UInt8
  | pending, [] => pending
  | pending, byte :: stream =>
      if byte = lineFeed ∨ pending.length + 1 = limit then unfinished limit [] stream
      else unfinished limit (pending ++ [byte]) stream

variable {limit : Nat}

/-- The first chunk, and those behind it. -/
theorem chunksFrom_eq_takeChunk {pending stream : List UInt8} (short : pending.length < limit)
    (more : stream ≠ []) :
    chunksFrom limit pending stream =
      (pending ++ (takeChunk (limit - pending.length) stream).1) ::
        chunks limit (takeChunk (limit - pending.length) stream).2 := by
  induction stream generalizing pending with
  | nil => exact absurd rfl more
  | cons byte stream ih =>
      obtain ⟨room, counted⟩ : ∃ room, limit - pending.length = room + 1 :=
        ⟨limit - pending.length - 1, by omega⟩
      simp only [chunksFrom, counted, takeChunk]
      by_cases newline : byte = lineFeed
      · simp only [newline, true_or, ↓reduceIte, chunks]
      · by_cases full : pending.length + 1 = limit
        · have noRoom : room = 0 := by omega
          simp only [newline, full, or_true, ↓reduceIte, noRoom, takeChunk, chunks]
        · simp only [newline, full, or_self, ↓reduceIte]
          have left : limit - (pending ++ [byte]).length = room := by
            rw [List.length_append, List.length_singleton]
            omega
          cases stream with
          | nil =>
              obtain ⟨less, counted⟩ : ∃ less, room = less + 1 := ⟨room - 1, by omega⟩
              simp only [chunksFrom, counted, takeChunk, chunks, List.append_eq_nil_iff,
                List.cons_ne_nil, and_false, ↓reduceIte]
          | cons next stream =>
              rw [ih (by rw [List.length_append, List.length_singleton]; omega)
                (List.cons_ne_nil next stream), left, List.append_assoc]
              rfl

/-- The loop over `fgets`: each string is read from where the last one ended. -/
theorem chunks_eq_fgets (positive : 0 < limit) (stream : List UInt8) :
    chunks limit stream =
      match fgets limit stream with
      | none => []
      | some (chunk, rest) => chunk :: chunks limit rest := by
  by_cases ended : stream = []
  · subst ended
    rfl
  · rw [chunks, chunksFrom_eq_takeChunk positive ended]
    simp only [fgets, ended, ↓reduceIte, List.length_nil, Nat.sub_zero, List.nil_append]

/-- The chunks of two streams, one behind the other. -/
theorem chunksFrom_append (pending first second : List UInt8) :
    chunksFrom limit pending (first ++ second) =
      completed limit pending first ++
        chunksFrom limit (unfinished limit pending first) second := by
  induction first generalizing pending with
  | nil => rfl
  | cons byte first ih =>
      simp only [List.cons_append, chunksFrom, completed, unfinished]
      split
      · rw [ih, List.cons_append]
      · exact ih _

theorem chunksFrom_eq (pending stream : List UInt8) :
    chunksFrom limit pending stream =
      completed limit pending stream ++
        if unfinished limit pending stream = [] then [] else [unfinished limit pending stream] := by
  have split := @chunksFrom_append limit pending stream []
  rwa [List.append_nil] at split

/-- The chunks that two streams complete. -/
theorem completed_append (pending first second : List UInt8) :
    completed limit pending (first ++ second) =
      completed limit pending first ++ completed limit (unfinished limit pending first) second := by
  induction first generalizing pending with
  | nil => rfl
  | cons byte first ih =>
      simp only [List.cons_append, completed, unfinished]
      split
      · rw [ih, List.cons_append]
      · exact ih _

/-- What two streams leave unfinished. -/
theorem unfinished_append (pending first second : List UInt8) :
    unfinished limit pending (first ++ second) =
      unfinished limit (unfinished limit pending first) second := by
  induction first generalizing pending with
  | nil => rfl
  | cons byte first ih =>
      simp only [List.cons_append, unfinished]
      split <;> exact ih _

/-- Bytes that neither end the line nor fill the buffer stay in it. -/
theorem unfinished_of_short {pending text : List UInt8} (plain : lineFeed ∉ text)
    (short : pending.length + text.length < limit) :
    completed limit pending text = [] ∧ unfinished limit pending text = pending ++ text := by
  induction text generalizing pending with
  | nil => exact ⟨rfl, (List.append_nil pending).symm⟩
  | cons byte text ih =>
      obtain ⟨different, others⟩ := not_or.mp fun member => plain (List.mem_cons.mpr member)
      rw [List.length_cons] at short
      have goesOn : ¬(byte = lineFeed ∨ pending.length + 1 = limit) := by
        rintro (same | full)
        · exact different same.symm
        · omega
      obtain ⟨none, kept⟩ := @ih (pending ++ [byte]) others (by
        rw [List.length_append, List.length_singleton]; omega)
      simp only [completed, unfinished, goesOn, ↓reduceIte, none, kept, List.append_assoc,
        List.cons_append, List.nil_append, and_self]

/-- A line that fits is one string, and the next one starts after it. -/
theorem completed_line {pending text : List UInt8} (plain : lineFeed ∉ text)
    (short : pending.length + text.length < limit) :
    completed limit pending (text ++ [lineFeed]) = [pending ++ text ++ [lineFeed]] ∧
      unfinished limit pending (text ++ [lineFeed]) = [] := by
  obtain ⟨none, kept⟩ := unfinished_of_short plain short
  simp only [completed_append, unfinished_append, none, kept, completed, unfinished, true_or,
    ↓reduceIte, List.nil_append, and_self]

/-- Bytes that just fill the buffer complete it. -/
theorem completed_full {pending text : List UInt8} (plain : lineFeed ∉ text) (nonempty : text ≠ [])
    (full : pending.length + text.length = limit) :
    completed limit pending text = [pending ++ text] ∧ unfinished limit pending text = [] := by
  cases text using List.reverseRecOn with
  | nil => exact absurd rfl nonempty
  | append_singleton front last =>
      rw [List.length_append, List.length_singleton] at full
      obtain ⟨none, kept⟩ := @unfinished_of_short limit pending front
        (fun member => plain (List.mem_append_left _ member)) (by omega)
      have fills : (pending ++ front).length + 1 = limit := by
        rw [List.length_append]
        omega
      simp only [completed_append, unfinished_append, none, kept, completed, unfinished, fills,
        or_true, ↓reduceIte, List.nil_append, List.append_assoc, and_self]

/-- The unfinished buffer holds the end of the stream and never a line feed. -/
theorem unfinished_spec (pending stream : List UInt8) (plain : lineFeed ∉ pending)
    (short : pending.length < limit) :
    lineFeed ∉ unfinished limit pending stream ∧
      (unfinished limit pending stream).length < limit := by
  induction stream generalizing pending with
  | nil => exact ⟨plain, short⟩
  | cons byte stream ih =>
      simp only [unfinished]
      split
      · exact ih [] List.not_mem_nil (by rw [List.length_nil]; omega)
      · next goesOn =>
          obtain ⟨different, notFull⟩ := not_or.mp goesOn
          refine ih (pending ++ [byte]) ?_ ?_
          · simp only [List.mem_append, plain, List.mem_singleton, Ne.symm different, or_self,
              not_false_eq_true]
          · rw [List.length_append, List.length_singleton]
            omega

/-- The number of bytes after the last line feed of the stream. -/
def tailLength (stream : List UInt8) : Nat := (stream.reverse.takeWhile (· != lineFeed)).length

/-- How much is left unfinished. -/
theorem length_unfinished (positive : 0 < limit) (stream : List UInt8) :
    (unfinished limit [] stream).length = tailLength stream % limit := by
  induction stream using List.reverseRecOn with
  | nil => rfl
  | append_singleton stream byte ih =>
      obtain ⟨_, short⟩ := @unfinished_spec limit [] stream List.not_mem_nil positive
      rw [unfinished_append]
      by_cases newline : byte = lineFeed
      · subst newline
        simp [unfinished, tailLength]
      · have longer : tailLength (stream ++ [byte]) = tailLength stream + 1 := by
          simp [tailLength, newline]
        rw [longer, Nat.add_mod, ← ih]
        by_cases full : (unfinished limit [] stream).length + 1 = limit
        · simp only [unfinished, full, or_true, ↓reduceIte, List.length_nil]
          rcases Nat.lt_or_ge 1 limit with large | one
          · rw [Nat.mod_eq_of_lt large, full, Nat.mod_self]
          · have same : limit = 1 := by omega
            rw [same, Nat.mod_one]
        · simp only [unfinished, newline, full, or_self, ↓reduceIte, List.length_append,
            List.length_singleton]
          rw [Nat.mod_eq_of_lt (by omega : 1 < limit), Nat.mod_eq_of_lt (by omega)]

theorem unfinished_eq_nil_iff (positive : 0 < limit) (stream : List UInt8) :
    unfinished limit [] stream = [] ↔ tailLength stream % limit = 0 := by
  rw [← length_unfinished positive, List.length_eq_zero_iff]

end MiniDbms.Foundation
