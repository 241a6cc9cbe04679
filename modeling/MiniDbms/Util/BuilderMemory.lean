import MiniDbms.Foundation.CInt
import MiniDbms.Util.JsonEscape

/-! # The JSON builder in memory

The functions of `util.c` on `data`, `len` and `cap`. A computation has no result where an
access is outside of the object or reads what was not written, where a `size_t` wraps, and
where a loop goes on after the rounds that it is given.

They do in memory what the functions of `MiniDbms.Util` do on texts
(`MiniDbms.Util.Memory.buildWith_follows`), so that after any calls that all returned 1 the
object holds the texts one after another and a NUL (`MiniDbms.Util.Memory.buildWith_holds`).
-/

namespace MiniDbms.Util.Memory

open Foundation

/-- `JsonBuilder`. A null pointer points to an object of size 0. -/
structure JsonBuilder where
  data : Block UInt8
  len : Nat
  cap : Nat

/-- What the functions leave: whether they returned 1, the builder and the allocator. -/
abbrev Outcome : Type := Bool × JsonBuilder × Heap

/-- `if (!first) return 0;` and what comes after it, or `first && rest`. -/
def andThen (first : Option Outcome) (rest : JsonBuilder → Heap → Option Outcome) :
    Option Outcome := do
  let (returned, builder, heap) ← first
  if returned then rest builder heap else return (false, builder, heap)

/-- What is done with the memory of this size, or with a null pointer. -/
def withMemory {α : Type} (size : Nat) (heap : Heap) (granted refused : Heap → Option α) :
    Option α :=
  if (heap.request size).1 then granted (heap.request size).2 else refused (heap.request size).2

/-- `json_builder_init`. -/
def jsonBuilderInit (heap : Heap) : Option Outcome :=
  withMemory 256 heap
    (fun heap => do
      let data ← (Block.fresh 256).write 0 0
      return (true, { data := data, len := 0, cap := 256 }, heap))
    (fun heap => some (false, { data := .fresh 0, len := 0, cap := 256 }, heap))

/-- The loop of `json_builder_reserve`: the capacity, or nothing if it would be too large. -/
def doubleCap (needed : Nat) : Nat → Nat → Option (Option Nat)
  | 0, _ => none
  | rounds + 1, nextCap =>
      if nextCap < needed then
        if nextCap > sizeMax / 2 then return none
        else do
          let doubled ← sizeMul nextCap 2
          doubleCap needed rounds doubled
      else return some nextCap

/-- `realloc(builder->data, next_cap)` and the assignments after it. -/
def reallocData (builder : JsonBuilder) (heap : Heap) (nextCap : Nat) : Option Outcome :=
  withMemory nextCap heap
    (fun heap =>
      some (true, { builder with data := builder.data.resize nextCap, cap := nextCap }, heap))
    (fun heap => some (false, builder, heap))

/-- `json_builder_reserve`. A `size_t` that is not 0 can be doubled fewer than 64 times. -/
def jsonBuilderReserve (builder : JsonBuilder) (extra : Nat) (heap : Heap) : Option Outcome := do
  let free ← sizeSub sizeMax builder.len
  let free ← sizeSub free 1
  if extra > free then return (false, builder, heap)
  else do
    let needed ← sizeAdd builder.len extra
    let needed ← sizeAdd needed 1
    if needed ≤ builder.cap then return (true, builder, heap)
    else do
      let nextCap ← doubleCap needed 64 (if builder.cap = 0 then 256 else builder.cap)
      nextCap.elim (some (false, builder, heap)) (reallocData builder heap)

/-- `memcpy(builder->data + builder->len, text, len + 1)` and the assignment after it. -/
def copyText (text : Block UInt8) (len : Nat) (builder : JsonBuilder) (heap : Heap) :
    Option Outcome := do
  let count ← sizeAdd len 1
  let bytes ← text.readAll 0 count
  let data ← builder.data.writeAll builder.len bytes
  let total ← sizeAdd builder.len len
  return (true, { builder with data := data, len := total }, heap)

/-- `json_builder_append`. -/
def jsonBuilderAppend (text : Block UInt8) (builder : JsonBuilder) (heap : Heap) :
    Option Outcome := do
  let bytes ← text.string 0
  andThen (jsonBuilderReserve builder bytes.length heap) (copyText text bytes.length)

/-- What `vsnprintf` prints, where `formatted` is what the format and its arguments print to, if
they can be printed. An `int` has to count the bytes. -/
def printable (formatted : Option (List UInt8)) : Option (List UInt8) :=
  formatted.filter fun text => decide ((text.length : Int) ≤ intMax.toInt)

/-- `vsnprintf(data + offset, size, ..)`: the object, and the return value unless it is
negative. -/
def vsnprintf (data : Block UInt8) (offset size : Nat) (formatted : Option (List UInt8)) :
    Option (Block UInt8 × Option Nat) :=
  (printable formatted).elim (some (data, none)) fun text => do
    let (data, written) ← snprintf data offset size text
    return (data, some written)

/-- The loop of `json_builder_appendf`, which formats as often as it has rounds at most. -/
def jsonBuilderAppendf (formatted : Option (List UInt8)) :
    Nat → JsonBuilder → Heap → Option Outcome
  | 0, _, _ => none
  | rounds + 1, builder, heap => do
      let room ← sizeSub builder.cap builder.len
      let (data, written) ← vsnprintf builder.data builder.len room formatted
      let builder := { builder with data := data }
      written.elim (some (false, builder, heap)) fun written => do
        let total ← sizeAdd builder.len written
        if total < builder.cap then return (true, { builder with len := total }, heap)
        else do
          let extra ← sizeAdd written 1
          andThen (jsonBuilderReserve builder extra heap) (jsonBuilderAppendf formatted rounds)

/-- `json_escape_dup`: the new object, or a null pointer. -/
def jsonEscapeDup (input : Block UInt8) (heap : Heap) : Option (Option (Block UInt8) × Heap) := do
  let text ← input.string 0
  if text.length > (sizeMax - 1) / 6 then return (none, heap)
  else do
    let cap ← sizeMul text.length 6
    let cap ← sizeAdd cap 1
    withMemory cap heap
      (fun heap => do
        let out ← escapeInto input
        return (some out, heap))
      (fun heap => some (none, heap))

/-- The object of a string literal that is a quote. -/
def quoteText : CString := ⟨ascii "\"", by decide⟩

/-- `json_builder_append_string`. -/
def jsonBuilderAppendString (text : Block UInt8) (builder : JsonBuilder) (heap : Heap) :
    Option Outcome := do
  let (escaped, heap) ← jsonEscapeDup text heap
  escaped.elim (some (false, builder, heap)) fun escaped =>
    andThen (andThen (jsonBuilderAppend (.ofString quoteText) builder heap)
      (jsonBuilderAppend escaped)) (jsonBuilderAppend (.ofString quoteText))

/-- A call of one of the three functions, by what it appends. -/
inductive Call
  | append (text : CString)
  | appendString (text : CString)
  | appendf (formatted : Option (List UInt8))

/-- The call, with rounds for the loop of `json_builder_appendf`. -/
def Call.run (rounds : Nat) (call : Call) (builder : JsonBuilder) (heap : Heap) : Option Outcome :=
  match call with
  | .append text => jsonBuilderAppend (.ofString text) builder heap
  | .appendString text => jsonBuilderAppendString (.ofString text) builder heap
  | .appendf formatted => jsonBuilderAppendf formatted rounds builder heap

/-- Calls one after another, up to one that returns 0. -/
def runCalls (rounds : Nat) : List Call → JsonBuilder → Heap → Option Outcome
  | [], builder, heap => some (true, builder, heap)
  | call :: calls, builder, heap => andThen (call.run rounds builder heap) (runCalls rounds calls)

/-- `json_builder_init` and the calls. -/
def buildWith (rounds : Nat) (calls : List Call) (heap : Heap) : Option Outcome :=
  andThen (jsonBuilderInit heap) (runCalls rounds calls)

/-- The text that a call appends. -/
def Call.text : Call → List UInt8
  | .append text => text.bytes
  | .appendString text => ascii "\"" ++ escape text.bytes ++ ascii "\""
  | .appendf formatted => formatted.getD []

/-- The call on a builder that has its text as a list. -/
def Call.onText (value : Util.JsonBuilder) : Call → Alloc Util.JsonBuilder
  | .append text => Util.jsonBuilderAppend value text.bytes
  | .appendString text => Util.jsonBuilderAppendString value text.bytes
  | .appendf formatted =>
      (printable formatted).elim (Attempt.fail ()) (Util.jsonBuilderAppendf value)

/-- The calls on a builder that has its text as a list. -/
def buildText (calls : List Call) : Alloc Util.JsonBuilder := do
  let value ← Util.jsonBuilderInit
  calls.foldlM Call.onText value

section Texts

variable {value next : Util.JsonBuilder} {heap after : Heap} {text : List UInt8}

/-- What is appended stands behind the text. -/
theorem data_append (returned : (Util.jsonBuilderAppend value text heap).1 = .ok next) :
    next.data = value.data ++ text := by
  obtain ⟨⟨grown, same, room⟩, after, ran, rest⟩ := Attempt.ok_of_bind returned
  cases rest
  exact congrArg (· ++ text) same

/-- So does what is formatted. -/
theorem data_appendf (returned : (Util.jsonBuilderAppendf value text heap).1 = .ok next) :
    next.data = value.data ++ text := by
  fun_induction Util.jsonBuilderAppendf value text generalizing heap with
  | case1 value room =>
      cases returned
      rfl
  | case2 value room ih =>
      obtain ⟨⟨grown, same, larger⟩, after, ran, rest⟩ := Attempt.ok_of_bind returned
      exact (ih grown same larger rest).trans (congrArg (· ++ text) same)

/-- So does an escaped string in its quotes. -/
theorem data_appendString
    (returned : (Util.jsonBuilderAppendString value text heap).1 = .ok next) :
    next.data = value.data ++ (ascii "\"" ++ escape text ++ ascii "\"") := by
  obtain ⟨escaped, first, escapes, returned⟩ := Attempt.ok_of_bind returned
  obtain ⟨opened, second, opens, returned⟩ := Attempt.ok_of_bind returned
  obtain ⟨filled, third, fills, closes⟩ := Attempt.ok_of_bind returned
  rw [data_append closes, data_append (congrArg Prod.fst fills),
    data_append (congrArg Prod.fst opens), escaped_of_jsonEscapeDup (congrArg Prod.fst escapes)]
  simp only [List.append_assoc]

/-- So does what any call appends. -/
theorem data_onText {call : Call} (returned : (call.onText value heap).1 = .ok next) :
    next.data = value.data ++ call.text := by
  cases call with
  | append text => exact data_append returned
  | appendString text => exact data_appendString returned
  | appendf formatted =>
      rw [Call.onText] at returned
      cases prints : printable formatted with
      | none =>
          rw [prints] at returned
          cases returned
      | some text =>
          rw [prints] at returned
          have same : formatted = some text := (Option.filter_eq_some_iff.mp prints).1
          rw [same]
          exact data_appendf returned

/-- So do the texts of several calls. -/
theorem data_foldlM {calls : List Call}
    (returned : (calls.foldlM Call.onText value heap).1 = .ok next) :
    next.data = value.data ++ calls.flatMap Call.text := by
  induction calls generalizing value heap with
  | nil =>
      cases returned
      exact (List.append_nil _).symm
  | cons call calls ih =>
      rw [List.foldlM_cons] at returned
      obtain ⟨middle, after, ran, rest⟩ := Attempt.ok_of_bind returned
      rw [ih rest, data_onText (congrArg Prod.fst ran), List.flatMap_cons, List.append_assoc]

/-- The texts of the calls one after another. -/
theorem data_buildText {calls : List Call} (returned : (buildText calls heap).1 = .ok next) :
    next.data = calls.flatMap Call.text := by
  obtain ⟨started, after, ran, rest⟩ := Attempt.ok_of_bind returned
  obtain ⟨_, middle, _, starts⟩ := Attempt.ok_of_bind (congrArg Prod.fst ran)
  cases starts
  exact (data_foldlM rest).trans (List.nil_append _)

end Texts

/-- The object holds the text; behind it there is room for a NUL. -/
structure Carries (builder : JsonBuilder) (value : Util.JsonBuilder) : Prop where
  len : builder.len = value.data.length
  cap : builder.cap = value.cap
  size : builder.data.size = value.cap
  granted : value.cap ≤ ptrdiffMax
  content : builder.data.Holds value.data

/-- The object holds the text and a NUL. -/
structure Stands (builder : JsonBuilder) (value : Util.JsonBuilder) : Prop
    extends Carries builder value where
  terminated : builder.data.Holds (value.data ++ [0])

/-- The function has a result, which is that of the function on texts. -/
inductive Follows {β : Type} (relation : JsonBuilder → β → Prop) :
    Option Outcome → Except Unit β × Heap → Prop
  | returned {next : JsonBuilder} {value : β} {heap : Heap} (related : relation next value) :
      Follows relation (some (true, next, heap)) (.ok value, heap)
  | gaveUp {next : JsonBuilder} {heap : Heap} :
      Follows relation (some (false, next, heap)) (.error (), heap)

section Follows

variable {β γ : Type} {relation : JsonBuilder → β → Prop} {further : JsonBuilder → γ → Prop}
  {run : Option Outcome} {heap : Heap}

/-- A run that follows step by step follows. -/
theorem Follows.andThen {rest : JsonBuilder → Heap → Option Outcome} {action : Alloc β}
    {specRest : β → Alloc γ} (first : Follows relation run (action heap))
    (later : ∀ next value heap, relation next value →
      Follows further (rest next heap) (specRest value heap)) :
    Follows further (Memory.andThen run rest) ((action >>= specRest) heap) := by
  rw [Attempt.bind_apply]
  generalize action heap = outcome at first ⊢
  cases first with
  | returned related => exact later _ _ _ related
  | gaveUp => exact .gaveUp

/-- A request is granted or refused alike. -/
theorem Follows.malloc {size : Nat} {granted refused : Heap → Option Outcome}
    {specRest : Unit → Alloc γ}
    (later : size ≤ ptrdiffMax → ∀ heap, Follows further (granted heap) (specRest () heap))
    (givesUp : ∀ heap, ∃ next, refused heap = some (false, next, heap)) :
    Follows further (withMemory size heap granted refused)
      ((Attempt.malloc size >>= specRest) heap) := by
  have bounded := @Heap.le_of_request heap size
  rw [Attempt.bind_apply, withMemory]
  unfold Attempt.malloc
  rcases answer : heap.request size with ⟨_ | _, after⟩ <;> rw [answer] at bounded
  · obtain ⟨next, same⟩ := givesUp after
    rw [if_neg Bool.false_ne_true, same]
    exact .gaveUp
  · rw [if_pos rfl]
    exact later (bounded rfl) after

/-- What is followed may be told more weakly. -/
theorem Follows.mono {spec : Except Unit β × Heap} (follows : Follows relation run spec)
    {weaker : JsonBuilder → β → Prop} (implied : ∀ next value, relation next value →
      weaker next value) : Follows weaker run spec := by
  cases follows with
  | returned related => exact .returned (implied _ _ related)
  | gaveUp => exact .gaveUp

end Follows

section Simulation

variable {builder : JsonBuilder} {value : Util.JsonBuilder} {heap : Heap}

/-- A builder begins alike. -/
theorem jsonBuilderInit_follows (heap : Heap) :
    Follows Stands (jsonBuilderInit heap) (Util.jsonBuilderInit heap) := by
  have empty := Block.holds_nil (Block.fresh 256 : Block UInt8)
  have size := @Block.size_fresh UInt8 256
  obtain ⟨data, written, terminated, same⟩ := empty.write (by rw [size]; decide) 0
  rw [List.length_nil] at written
  apply Follows.malloc
  · intro granted after
    rw [written]
    exact .returned {
      len := rfl
      cap := rfl
      size := same.trans size
      granted := granted
      content := Block.holds_nil data
      terminated := terminated }
  · intro after
    exact ⟨_, rfl⟩

/-- The 64-bit `size_t` does not wrap while it doubles, and there are rounds enough. -/
theorem doubleCap_eq {needed rounds cap : Nat} (positive : 0 < cap) (bounded : cap ≤ sizeMax)
    (enough : sizeMax < 2 ^ rounds * cap) :
    doubleCap needed rounds cap = some (growCap needed cap positive) := by
  induction rounds generalizing cap with
  | zero =>
      rw [Nat.pow_zero, Nat.one_mul] at enough
      exact absurd bounded (Nat.not_le.mpr enough)
  | succ rounds ih =>
      rw [doubleCap, growCap]
      split
      · next short =>
          split
          · rfl
          · next half =>
              have doubled : cap * 2 ≤ sizeMax := by omega
              have later : sizeMax < 2 ^ rounds * (cap * 2) := by
                rwa [Nat.pow_succ, Nat.mul_assoc, Nat.mul_comm 2 cap] at enough
              rw [sizeMul, if_pos doubled]
              exact ih (double_pos positive) doubled later
      · rfl

/-- What `json_builder_reserve` does to the builder. -/
inductive Enlarged (builder : JsonBuilder) : JsonBuilder → Prop
  | same : Enlarged builder builder
  | resized {nextCap : Nat} (granted : nextCap ≤ ptrdiffMax) :
      Enlarged builder { builder with data := builder.data.resize nextCap, cap := nextCap }

/-- The two ways of `json_builder_reserve` where more memory is needed. -/
theorem jsonBuilderReserve_grows {extra : Nat} (positive : 0 < value.cap)
    (short : ¬ extra > sizeMax - value.data.length - 1)
    (more : ¬ value.data.length + extra + 1 ≤ value.cap) :
    (growCap (value.data.length + extra + 1) value.cap positive = none ∧
      Util.jsonBuilderReserve value extra = Attempt.fail ()) ∨
    ∃ nextCap, growCap (value.data.length + extra + 1) value.cap positive = some nextCap ∧
      ∃ fits room, Util.jsonBuilderReserve value extra = Attempt.malloc nextCap >>= fun _ =>
        pure ⟨{ value with cap := nextCap, fits := fits }, rfl, room⟩ := by
  unfold Util.jsonBuilderReserve
  rw [if_neg short]
  dsimp only
  rw [dif_neg more]
  split
  · next tooLarge => exact .inl ⟨tooLarge, rfl⟩
  · next nextCap grown =>
      have room := le_of_growCap _ grown
      exact .inr ⟨nextCap, grown, by omega, room, rfl⟩

/-- No `size_t` wraps in `json_builder_reserve`, and its loop ends. -/
theorem jsonBuilderReserve_eq (positive : 0 < builder.cap) (fits : builder.len < builder.cap)
    (bounded : builder.cap ≤ sizeMax) (extra : Nat) :
    jsonBuilderReserve builder extra heap =
      if extra > sizeMax - builder.len - 1 then some (false, builder, heap)
      else if builder.len + extra + 1 ≤ builder.cap then some (true, builder, heap)
      else (growCap (builder.len + extra + 1) builder.cap positive).elim
        (some (false, builder, heap)) (reallocData builder heap) := by
  have free : sizeSub sizeMax builder.len = some (sizeMax - builder.len) := if_pos (by omega)
  have free' : sizeSub (sizeMax - builder.len) 1 = some (sizeMax - builder.len - 1) :=
    if_pos (by omega)
  simp only [jsonBuilderReserve, free, free', Option.bind_eq_bind, Option.bind_some]
  split
  · rfl
  · next short =>
      have needed : sizeAdd builder.len extra = some (builder.len + extra) := if_pos (by omega)
      have needed' : sizeAdd (builder.len + extra) 1 = some (builder.len + extra + 1) :=
        if_pos (by omega)
      have doubled := @doubleCap_eq (builder.len + extra + 1) 64 builder.cap positive bounded (by
        simp only [sizeMax]
        omega)
      simp only [needed, needed', Option.bind_some, if_neg (Nat.ne_of_gt positive), doubled]
      rfl

/-- The room grows alike. -/
theorem jsonBuilderReserve_follows (extra : Nat) (len : builder.len = value.data.length)
    (cap : builder.cap = value.cap) (bounded : builder.cap ≤ sizeMax) :
    Follows (fun next grown => Enlarged builder next ∧ next.cap = grown.1.cap)
      (jsonBuilderReserve builder extra heap) (Util.jsonBuilderReserve value extra heap) := by
  have fits : builder.len < builder.cap := len ▸ cap ▸ value.fits
  have positive : 0 < builder.cap := Nat.zero_lt_of_lt fits
  rw [jsonBuilderReserve_eq positive fits bounded]
  simp only [len, cap]
  split
  · next long =>
      rw [Util.jsonBuilderReserve, if_pos long]
      exact .gaveUp
  · next short =>
      split
      · next enough =>
          rw [Util.jsonBuilderReserve, if_neg short]
          dsimp only
          rw [dif_pos enough]
          exact .returned ⟨.same, cap⟩
      · next more =>
          obtain ⟨tooLarge, fails⟩ | ⟨nextCap, grown, _, _, requests⟩ :=
            jsonBuilderReserve_grows (cap ▸ positive) short more
          · rw [tooLarge, fails]
            exact .gaveUp
          · rw [grown, requests, Option.elim_some, reallocData]
            apply Follows.malloc
            · intro granted after
              exact .returned ⟨.resized granted, rfl⟩
            · intro after
              exact ⟨builder, rfl⟩

/-- More memory does not touch the text. -/
theorem Carries.enlarged {next : JsonBuilder} {grown : Util.JsonBuilder}
    (carries : Carries builder value) (enlarged : Enlarged builder next)
    (cap : next.cap = grown.cap) (same : grown.data = value.data) : Carries next grown := by
  have fits := grown.fits
  cases enlarged with
  | same =>
      have caps : value.cap = grown.cap := carries.cap.symm.trans cap
      exact {
        len := by rw [same, carries.len]
        cap := cap
        size := carries.size.trans caps
        granted := caps ▸ carries.granted
        content := same ▸ carries.content }
  | @resized nextCap granted =>
      have caps : nextCap = grown.cap := cap
      rw [same, ← caps] at fits
      exact {
        len := by rw [same, ← carries.len]
        cap := caps
        size := (Block.size_resize builder.data nextCap).trans caps
        granted := caps ▸ granted
        content := same ▸ carries.content.resize fits.le }

/-- A builder with more room carries the same text. -/
theorem Carries.reserve (carries : Carries builder value) (extra : Nat) :
    Follows (fun next grown => Carries next grown.1) (jsonBuilderReserve builder extra heap)
      (Util.jsonBuilderReserve value extra heap) := by
  have bounded : builder.cap ≤ sizeMax := carries.cap.trans_le (carries.granted.trans (by decide))
  apply (jsonBuilderReserve_follows extra carries.len carries.cap bounded).mono
  intro next grown related
  exact carries.enlarged related.1 related.2 grown.2.1

/-- Writing a text and a NUL behind the text, where there is room for both. -/
theorem Carries.write (carries : Carries builder value) {text : List UInt8}
    (fits : (value.data ++ text).length < value.cap) :
    ∃ data, builder.data.writeAll builder.len (text ++ [0]) = some data ∧
      Stands { builder with data := data, len := value.data.length + text.length }
        { data := value.data ++ text, cap := value.cap, fits := fits } := by
  have room : value.data.length + (text ++ [0]).length ≤ builder.data.size := by
    rw [List.length_append] at fits
    rw [List.length_append, List.length_singleton, carries.size]
    omega
  obtain ⟨data, written, terminated, same⟩ := carries.content.writeAll room
  rw [← List.append_assoc] at terminated
  refine ⟨data, by rw [carries.len, written], ?_⟩
  exact {
    len := List.length_append.symm
    cap := carries.cap
    size := same.trans carries.size
    granted := carries.granted
    content := terminated.of_append
    terminated := terminated }

/-- The text and its NUL are copied behind the text. -/
theorem Carries.copyText (carries : Carries builder value) {text : Block UInt8}
    {bytes : List UInt8} (points : text.Points 0 bytes)
    (fits : (value.data ++ bytes).length < value.cap) :
    ∃ after, copyText text bytes.length builder heap = some (true, after, heap) ∧
      Stands after { data := value.data ++ bytes, cap := value.cap, fits := fits } := by
  obtain ⟨data, written, stands⟩ := carries.write fits
  have granted := carries.granted
  rw [List.length_append] at fits
  simp only [ptrdiffMax] at granted
  have terminated : (bytes ++ [0]).length = bytes.length + 1 := List.length_append
  have copied : text.readAll 0 (bytes.length + 1) = some (bytes ++ [0]) := by
    rw [points.holds.readAll (by rw [terminated, Nat.zero_add]), List.drop_zero, ← terminated,
      List.take_length]
  have count : sizeAdd bytes.length 1 = some (bytes.length + 1) := if_pos (by
    simp only [sizeMax]
    omega)
  have total : sizeAdd builder.len bytes.length = some (value.data.length + bytes.length) := by
    rw [carries.len]
    exact if_pos (by
      simp only [sizeMax]
      omega)
  refine ⟨_, ?_, stands⟩
  simp only [Memory.copyText, count, copied, written, total, Option.bind_eq_bind, Option.bind_some,
    pure]

/-- A text is appended alike. -/
theorem Carries.append (carries : Carries builder value) {text : Block UInt8} {bytes : List UInt8}
    (points : text.Points 0 bytes) :
    Follows Stands (jsonBuilderAppend text builder heap)
      (Util.jsonBuilderAppend value bytes heap) := by
  rw [jsonBuilderAppend, points.string, Option.bind_eq_bind, Option.bind_some]
  apply (carries.reserve bytes.length).andThen
  intro next grown after carries'
  obtain ⟨grown, same, room⟩ := grown
  have fits : (grown.data ++ bytes).length < grown.cap := by
    rw [List.length_append, same]
    omega
  obtain ⟨last, copied, stands⟩ := carries'.copyText points fits
  rw [copied]
  exact .returned stands

/-- `vsnprintf` writes as much of the text as there is room for, and a NUL. -/
theorem Carries.print (carries : Carries builder value) (text : List UInt8) :
    ∃ data, snprintf builder.data builder.len (value.cap - value.data.length) text =
        some (data, text.length) ∧ Carries { builder with data := data } value ∧
      ∀ fits : (value.data ++ text).length < value.cap,
        Stands { builder with data := data, len := value.data.length + text.length }
          { data := value.data ++ text, cap := value.cap, fits := fits } := by
  have below := value.fits
  have room : value.cap - value.data.length ≠ 0 := by omega
  have cut : (value.data ++ text.take (value.cap - value.data.length - 1)).length < value.cap := by
    rw [List.length_append, List.length_take]
    omega
  obtain ⟨data, written, stands⟩ := carries.write cut
  refine ⟨data, ?_, ?_, ?_⟩
  · rw [snprintf, if_neg room, written]
    rfl
  · exact {
      len := carries.len
      cap := carries.cap
      size := stands.size
      granted := carries.granted
      content := stands.content.of_append }
  · intro fits
    have whole : text.take (value.cap - value.data.length - 1) = text := by
      rw [List.length_append] at fits
      apply List.take_of_length_le
      omega
    simp only [whole] at stands
    exact stands

/-- One round of the loop. -/
theorem Carries.appendfRound (carries : Carries builder value)
    {formatted : Option (List UInt8)} {text : List UInt8} (prints : printable formatted = some text)
    (rounds : Nat) :
    ∃ data, Carries { builder with data := data } value ∧
      (∀ fits : (value.data ++ text).length < value.cap,
        Stands { builder with data := data, len := value.data.length + text.length }
          { data := value.data ++ text, cap := value.cap, fits := fits }) ∧
      jsonBuilderAppendf formatted (rounds + 1) builder heap =
        if value.data.length + text.length < value.cap then
          some (true, { builder with
            data := data, len := value.data.length + text.length }, heap)
        else andThen (jsonBuilderReserve { builder with data := data } (text.length + 1) heap)
          (jsonBuilderAppendf formatted rounds) := by
  obtain ⟨data, written, kept, all⟩ := carries.print text
  have below := value.fits
  have granted := carries.granted
  simp only [ptrdiffMax] at granted
  have counted : (text.length : Int) ≤ intMax.toInt :=
    of_decide_eq_true (Option.filter_eq_some_iff.mp prints).2
  rw [toInt_intMax] at counted
  have room : sizeSub value.cap value.data.length = some (value.cap - value.data.length) :=
    if_pos below.le
  have total : sizeAdd value.data.length text.length =
      some (value.data.length + text.length) := if_pos (by
    simp only [sizeMax]
    omega)
  have extra : sizeAdd text.length 1 = some (text.length + 1) := if_pos (by
    simp only [sizeMax]
    omega)
  refine ⟨data, kept, all, ?_⟩
  rw [carries.len] at written
  simp only [jsonBuilderAppendf, vsnprintf, prints, carries.len, carries.cap, room, written, total,
    extra, Option.bind_eq_bind, Option.bind_some, Option.elim_some, pure]

/-- The text is printed once, or twice if it is too long at first. -/
theorem Carries.appendf (carries : Carries builder value) {formatted : Option (List UInt8)}
    {text : List UInt8} (prints : printable formatted = some text) (rounds : Nat) :
    Follows Stands (jsonBuilderAppendf formatted (rounds + 2) builder heap)
      (Util.jsonBuilderAppendf value text heap) := by
  obtain ⟨data, kept, all, round⟩ := carries.appendfRound prints (rounds + 1)
  rw [round, Util.jsonBuilderAppendf]
  split
  · next fits => exact .returned (all (by rwa [List.length_append]))
  · apply (kept.reserve (text.length + 1)).andThen
    intro next grown after carries'
    obtain ⟨grown, same, room⟩ := grown
    have fits : grown.data.length + text.length < grown.cap := by
      rw [same]
      omega
    obtain ⟨data', _, all', round'⟩ := carries'.appendfRound prints rounds
    change Follows Stands _ (Util.jsonBuilderAppendf grown text after)
    rw [round', if_pos fits, Util.jsonBuilderAppendf, dif_pos fits]
    exact .returned (all' (by rwa [List.length_append]))

/-- Nothing is written where `vsnprintf` returns an error. -/
theorem Carries.appendfFails (carries : Carries builder value) {formatted : Option (List UInt8)}
    (fails : printable formatted = none) (rounds : Nat) :
    jsonBuilderAppendf formatted (rounds + 1) builder heap = some (false, builder, heap) := by
  have below := value.fits
  have room : sizeSub builder.cap builder.len = some (builder.cap - builder.len) := if_pos (by
    rw [carries.cap, carries.len]
    exact below.le)
  simp only [jsonBuilderAppendf, vsnprintf, fails, room, Option.bind_eq_bind, Option.bind_some,
    Option.elim_none]

theorem zero_notMem_escape (text : List UInt8) : 0 ∉ escape text := fun member =>
  absurd (le_of_mem_escape 0 member) (by decide)

/-- The new object holds the escaped text, unless there is a null pointer instead of it. -/
theorem jsonEscapeDup_cases (text : CString) (heap : Heap) :
    (∃ out after, jsonEscapeDup (.ofString text) heap = some (some out, after) ∧
      Util.jsonEscapeDup text.bytes heap = (.ok (escape text.bytes), after) ∧
      out.Points 0 (escape text.bytes)) ∨
    ∃ after, jsonEscapeDup (.ofString text) heap = some (none, after) ∧
      Util.jsonEscapeDup text.bytes heap = (.error (), after) := by
  rw [jsonEscapeDup, (Block.points_ofString text).string, Option.bind_eq_bind, Option.bind_some,
    Util.jsonEscapeDup]
  split
  · exact .inr ⟨heap, rfl, rfl⟩
  · next short =>
      obtain ⟨out, ran, _, holds⟩ := escapeInto_holds (Nat.not_lt.mp short)
      have points := holds.points (zero_notMem_escape text.bytes)
      have product : sizeMul text.bytes.length 6 = some (text.bytes.length * 6) := if_pos (by
        simp only [sizeMax] at short ⊢
        omega)
      have cap : sizeAdd (text.bytes.length * 6) 1 = some (text.bytes.length * 6 + 1) :=
        if_pos (by
          simp only [sizeMax] at short ⊢
          omega)
      rw [product, Option.bind_eq_bind, Option.bind_some, cap, Option.bind_some, withMemory,
        Attempt.bind_apply]
      unfold Attempt.malloc
      rcases heap.request (text.bytes.length * 6 + 1) with ⟨_ | _, after⟩
      · exact .inr ⟨after, rfl, rfl⟩
      · refine .inl ⟨out, after, ?_, rfl, points⟩
        rw [if_pos rfl, ran]
        rfl

/-- A string is escaped and appended alike. -/
theorem Carries.appendString (carries : Carries builder value) (text : CString) :
    Follows Stands (jsonBuilderAppendString (.ofString text) builder heap)
      (Util.jsonBuilderAppendString value text.bytes heap) := by
  have quote := Block.points_ofString quoteText
  rw [jsonBuilderAppendString, Util.jsonBuilderAppendString, Attempt.bind_apply]
  obtain ⟨out, after, ran, spec, points⟩ | ⟨after, ran, spec⟩ := jsonEscapeDup_cases text heap
  · rw [ran, spec]
    change Follows Stands
      (andThen (andThen (jsonBuilderAppend (.ofString quoteText) builder after)
        (jsonBuilderAppend out)) (jsonBuilderAppend (.ofString quoteText)))
      ((Util.jsonBuilderAppend value (ascii "\"") >>= fun opened =>
        Util.jsonBuilderAppend opened (escape text.bytes) >>= fun filled =>
          Util.jsonBuilderAppend filled (ascii "\"")) after)
    rw [← Attempt.bind_assoc]
    apply Follows.andThen
    · apply (carries.append quote).andThen
      intro opened value' heap stands
      exact stands.append points
    · intro filled value' heap stands
      exact stands.append quote
  · rw [ran, spec]
    exact .gaveUp

/-- Every call does alike. -/
theorem Stands.call (stands : Stands builder value) (call : Call) (rounds : Nat) :
    Follows Stands (call.run (rounds + 2) builder heap) (call.onText value heap) := by
  cases call with
  | append text => exact stands.append (Block.points_ofString text)
  | appendString text => exact stands.appendString text
  | appendf formatted =>
      rw [Call.run, Call.onText]
      cases prints : printable formatted with
      | none =>
          rw [stands.appendfFails prints]
          exact .gaveUp
      | some text => exact stands.appendf prints rounds

/-- So do several. -/
theorem Stands.calls (stands : Stands builder value) (calls : List Call) (rounds : Nat) :
    Follows Stands (runCalls (rounds + 2) calls builder heap)
      (calls.foldlM Call.onText value heap) := by
  induction calls generalizing builder value heap with
  | nil => exact .returned stands
  | cons call calls ih =>
      rw [runCalls, List.foldlM_cons]
      apply (stands.call call rounds).andThen
      intro next value heap stands
      exact ih stands

/-- **The builder in memory does what the builder does on texts.** -/
theorem buildWith_follows (rounds : Nat) (calls : List Call) (heap : Heap) :
    Follows Stands (buildWith (rounds + 2) calls heap) (buildText calls heap) := by
  apply (jsonBuilderInit_follows heap).andThen
  intro builder value heap stands
  exact stands.calls calls rounds

end Simulation

/-- A run that follows comes to its end. -/
theorem Follows.result {β : Type} {relation : JsonBuilder → β → Prop} {run : Option Outcome}
    {spec : Except Unit β × Heap} (follows : Follows relation run spec) :
    ∃ returned next after, run = some (returned, next, after) ∧
      (returned = true → ∃ value, spec.1 = .ok value ∧ relation next value) := by
  cases follows with
  | @returned next value heap related =>
      exact ⟨true, next, heap, rfl, fun _ => ⟨value, rfl, related⟩⟩
  | @gaveUp next heap =>
      refine ⟨false, next, heap, rfl, ?_⟩
      intro impossible
      cases impossible

/-- The fields that the callers see. -/
structure Contains (builder : JsonBuilder) (text : List UInt8) : Prop where
  fits : builder.len < builder.cap
  terminated : builder.data.read builder.len = some 0
  content : builder.data.readAll 0 builder.len = some text

/-- A builder that stands contains its text. -/
theorem Stands.contains {builder : JsonBuilder} {value : Util.JsonBuilder}
    (stands : Stands builder value) : Contains builder value.data := by
  have length : (value.data ++ [0]).length = builder.len + 1 := by
    rw [List.length_append, List.length_singleton, stands.len]
  have last : (value.data ++ [0])[builder.len]? = some 0 := by
    rw [stands.len, List.getElem?_append_right (Nat.le_refl _), Nat.sub_self]
    rfl
  have whole : (value.data.drop 0).take builder.len = value.data := by
    rw [List.drop_zero, stands.len, List.take_length]
  refine ⟨?_, stands.terminated.read last, ?_⟩
  · rw [stands.len, stands.cap]
    exact value.fits
  · rw [stands.content.readAll (by rw [Nat.zero_add, stands.len]), whole]

/-- A builder that has done its calls contains their texts. -/
theorem contains_of_buildWith (rounds : Nat) (calls : List Call) (heap : Heap) :
    ∃ returned builder after, buildWith (rounds + 2) calls heap = some (returned, builder, after) ∧
      (returned = true → Contains builder (calls.flatMap Call.text)) := by
  obtain ⟨returned, builder, after, ran, related⟩ := (buildWith_follows rounds calls heap).result
  refine ⟨returned, builder, after, ran, ?_⟩
  intro isTrue
  obtain ⟨value, built, stands⟩ := related isTrue
  exact data_buildText built ▸ stands.contains

/-- No text is needed: the capacity and the length decide. -/
theorem room_of_reserve {builder : JsonBuilder} (fits : builder.len < builder.cap)
    (bounded : builder.cap ≤ sizeMax) (extra : Nat) (heap : Heap) :
    ∃ returned next after, jsonBuilderReserve builder extra heap = some (returned, next, after) ∧
      (returned = true → builder.len + extra + 1 ≤ next.cap) := by
  have length : (List.replicate builder.len (0 : UInt8)).length = builder.len :=
    List.length_replicate
  let value : Util.JsonBuilder :=
    { data := List.replicate builder.len 0, cap := builder.cap, fits := by rwa [length] }
  have follows := @jsonBuilderReserve_follows builder value heap extra length.symm rfl bounded
  obtain ⟨returned, next, after, ran, related⟩ := follows.result
  refine ⟨returned, next, after, ran, ?_⟩
  intro isTrue
  obtain ⟨⟨grown, _, room⟩, _, _, cap⟩ := related isTrue
  rw [cap]
  rwa [length] at room

/-- Two rounds of formatting are enough. -/
theorem Carries.formatsTwice {builder : JsonBuilder} {value : Util.JsonBuilder}
    (carries : Carries builder value) (formatted : Option (List UInt8)) (heap : Heap) :
    (jsonBuilderAppendf formatted 2 builder heap).isSome = true := by
  cases prints : printable formatted with
  | none =>
      rw [carries.appendfFails prints]
      rfl
  | some text =>
      have follows : Follows Stands (jsonBuilderAppendf formatted 2 builder heap)
          (Util.jsonBuilderAppendf value text heap) := carries.appendf prints 0
      obtain ⟨returned, next, after, ran, _⟩ := follows.result
      rw [ran]
      rfl

/-- **The invariant of the JSON builder.** Whatever the calls append and whatever memory is
refused: no access is out of bounds, no `size_t` wraps, and after calls that all returned 1 the
object holds their texts and a NUL with `len < cap`. To reserve memory ends for every builder
with `len < cap` and makes room for the bytes and a NUL, and to append a format takes two
rounds at most. -/
theorem buildWith_holds :
    (∀ (rounds : Nat) (calls : List Call) (heap : Heap), ∃ returned builder after,
      buildWith (rounds + 2) calls heap = some (returned, builder, after) ∧
        (returned = true → Contains builder (calls.flatMap Call.text))) ∧
      (∀ builder : JsonBuilder, builder.len < builder.cap → builder.cap ≤ sizeMax →
        ∀ (extra : Nat) (heap : Heap), ∃ returned next after,
          jsonBuilderReserve builder extra heap = some (returned, next, after) ∧
            (returned = true → builder.len + extra + 1 ≤ next.cap)) ∧
      ∀ (builder : JsonBuilder) (value : Util.JsonBuilder), Carries builder value →
        ∀ (formatted : Option (List UInt8)) (heap : Heap),
          (jsonBuilderAppendf formatted 2 builder heap).isSome = true :=
  ⟨contains_of_buildWith, fun _ => room_of_reserve, fun _ _ => Carries.formatsTwice⟩

/-- The calls for an object with a name. -/
def nameCalls : List Call :=
  [.append ⟨ascii "\x7b\"name\":", by decide +kernel⟩,
    .appendString ⟨ascii "a\"b", by decide +kernel⟩,
    .appendf (some (ascii "\x7d"))]

/-- The calls, memory that has to grow, and a text that is as long as the memory. -/
theorem buildWith_holds_name :
    (∃ builder after, buildWith 2 nameCalls .generous = some (true, builder, after) ∧
      Contains builder (nameCalls.flatMap Call.text)) ∧
      (∃ next after, jsonBuilderReserve ⟨.fresh 256, 255, 256⟩ 1 .generous =
        some (true, next, after) ∧ 255 + 1 + 1 ≤ next.cap) ∧
      (jsonBuilderAppendf (some (List.replicate 256 32)) 2 ⟨.fresh 256, 0, 256⟩ .generous).isSome =
        true := by
  obtain ⟨runs, reserves, formats⟩ := buildWith_holds
  refine ⟨?_, ?_, ?_⟩
  · obtain ⟨returned, builder, after, ran, contains⟩ := runs 0 nameCalls .generous
    have last : (buildWith 2 nameCalls .generous).map Prod.fst = some true := by decide +kernel
    rw [ran, Option.map_some, Option.some_inj] at last
    obtain rfl : returned = true := last
    exact ⟨builder, after, ran, contains rfl⟩
  · obtain ⟨returned, next, after, ran, room⟩ :=
      reserves ⟨.fresh 256, 255, 256⟩ (by decide) (by decide) 1 .generous
    have last : (jsonBuilderReserve ⟨.fresh 256, 255, 256⟩ 1 .generous).map Prod.fst =
        some true := by decide +kernel
    rw [ran, Option.map_some, Option.some_inj] at last
    obtain rfl : returned = true := last
    exact ⟨next, after, ran, room rfl⟩
  · apply formats _ { data := [], cap := 256, fits := by decide }
    exact {
      len := rfl
      cap := rfl
      size := Block.size_fresh 256
      granted := by decide
      content := Block.holds_nil _ }

end MiniDbms.Util.Memory
