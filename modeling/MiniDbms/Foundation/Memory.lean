import Mathlib.Data.List.Infix
import Mathlib.Data.List.TakeWhile
import Mathlib.Tactic.Common
import MiniDbms.Foundation.Allocation
import MiniDbms.Foundation.Bytes

/-! # Checked memory

An object is a list of cells, which may hold a value. Reading a cell that is outside the
object or was never written gives nothing, and so does writing outside of it; a computation
with a result has done neither. Pointers are offsets.

What the first cells hold is `MiniDbms.Foundation.Block.Holds`, and what string a pointer
points to is `MiniDbms.Foundation.Block.Points`. A computation on memory agrees with one on
values (`MiniDbms.Foundation.Agrees`) if it always has a result, which is the same.
-/

namespace MiniDbms.Foundation

/-- The cells of an object. -/
structure Block (Symbol : Type) where
  cells : List (Option Symbol)
  deriving DecidableEq

namespace Block

variable {Symbol : Type}

def size (block : Block Symbol) : Nat := block.cells.length

/-- A new object: nothing has been written. -/
def fresh (size : Nat) : Block Symbol := ⟨List.replicate size none⟩

/-- `realloc`: the cells stay as they are, as far as there is room, and new ones are not
written. -/
def resize (block : Block Symbol) (size : Nat) : Block Symbol :=
  ⟨block.cells.take size ++ List.replicate (size - block.size) none⟩

/-- An object that is written all over, as `memset` leaves it. -/
def filled (size : Nat) (symbol : Symbol) : Block Symbol := ⟨List.replicate size (some symbol)⟩

/-- An object that is a NUL-terminated string and nothing else. -/
def ofString (text : CString) : Block UInt8 := ⟨(text.bytes ++ [0]).map some⟩

def read (block : Block Symbol) (offset : Nat) : Option Symbol := block.cells[offset]?.join

def write (block : Block Symbol) (offset : Nat) (symbol : Symbol) : Option (Block Symbol) :=
  if offset < block.size then some ⟨block.cells.set offset (some symbol)⟩ else none

/-- Cells one after another. -/
def readAll (block : Block Symbol) (offset : Nat) : Nat → Option (List Symbol)
  | 0 => some []
  | count + 1 => do
      let symbol ← block.read offset
      let symbols ← block.readAll (offset + 1) count
      return symbol :: symbols

def writeAll (block : Block Symbol) (offset : Nat) : List Symbol → Option (Block Symbol)
  | [] => some block
  | symbol :: symbols => do
      let block ← block.write offset symbol
      block.writeAll (offset + 1) symbols

theorem size_fresh (size : Nat) : (fresh size : Block Symbol).size = size := List.length_replicate

/-- A block that is resized has the new size. -/
theorem size_resize (block : Block Symbol) (size : Nat) : (block.resize size).size = size := by
  rw [Block.size, resize, List.length_append, List.length_take, List.length_replicate]
  change min size block.size + (size - block.size) = size
  omega

def Holds (block : Block Symbol) (symbols : List Symbol) : Prop :=
  symbols.map some <+: block.cells

section Holds

variable {block : Block Symbol} {symbols more : List Symbol} {symbol : Symbol}

theorem holds_nil (block : Block Symbol) : block.Holds [] := List.nil_prefix

theorem Holds.of_append (holds : block.Holds (symbols ++ more)) : block.Holds symbols := by
  rw [Holds, List.map_append] at holds
  exact (List.prefix_append _ _).trans holds

/-- What a block holds can be read. -/
theorem Holds.read (holds : block.Holds symbols) {offset : Nat}
    (present : symbols[offset]? = some symbol) : block.read offset = some symbol := by
  obtain ⟨others, split⟩ := holds
  have inside : offset < symbols.length := (List.getElem?_eq_some_iff.mp present).1
  rw [Block.read, ← split, List.getElem?_append_left (by rwa [List.length_map]), List.getElem?_map,
    present]
  rfl

/-- So can several symbols at once. -/
theorem Holds.readAll (holds : block.Holds symbols) {offset count : Nat}
    (inside : offset + count ≤ symbols.length) :
    block.readAll offset count = some ((symbols.drop offset).take count) := by
  induction count generalizing offset with
  | zero => rw [Block.readAll, List.take_zero]
  | succ count ih =>
      have here : offset < symbols.length := by omega
      rw [Block.readAll, holds.read (List.getElem?_eq_getElem here), ih (by omega),
        List.drop_eq_getElem_cons here, List.take_succ_cons]
      rfl

/-- Writing behind what is held. -/
theorem Holds.write (holds : block.Holds symbols) (room : symbols.length < block.size)
    (symbol : Symbol) :
    ∃ next, block.write symbols.length symbol = some next ∧ next.Holds (symbols ++ [symbol]) ∧
      next.size = block.size := by
  refine ⟨_, if_pos room, ?_, List.length_set⟩
  obtain ⟨others, split⟩ := holds
  rw [size, ← split, List.length_append, List.length_map] at room
  obtain ⟨old, others, rfl⟩ := List.exists_cons_of_length_pos (l := others) (by omega)
  change (symbols ++ [symbol]).map some <+: block.cells.set symbols.length (some symbol)
  rw [← split, List.set_append_right _ _ (by rw [List.length_map]), List.length_map, Nat.sub_self,
    List.set_cons_zero, List.map_append]
  exact ⟨others, List.append_assoc _ _ _⟩

/-- Symbols are written behind those that are held, where there is room. -/
theorem Holds.writeAll (holds : block.Holds symbols)
    (room : symbols.length + more.length ≤ block.size) :
    ∃ next, block.writeAll symbols.length more = some next ∧ next.Holds (symbols ++ more) ∧
      next.size = block.size := by
  induction more generalizing block symbols with
  | nil => exact ⟨block, rfl, by rwa [List.append_nil], rfl⟩
  | cons symbol more ih =>
      rw [List.length_cons] at room
      obtain ⟨middle, written, held, same⟩ := holds.write (by omega) symbol
      obtain ⟨next, others, held, same'⟩ := ih held (by
        rw [List.length_append, List.length_singleton]
        omega)
      refine ⟨next, ?_, by rwa [List.append_cons], same'.trans same⟩
      rw [List.length_append, List.length_singleton] at others
      rw [Block.writeAll, written]
      exact others

/-- Resizing keeps what still fits. -/
theorem Holds.resize (holds : block.Holds symbols) {size : Nat} (room : symbols.length ≤ size) :
    (block.resize size).Holds symbols := by
  have kept := List.IsPrefix.take holds size
  rw [List.take_of_length_le (by rwa [List.length_map])] at kept
  exact kept.trans (List.prefix_append _ _)

/-- Writing to the start of an object. -/
theorem writeAll_start (room : symbols.length ≤ block.size) :
    ∃ next, block.writeAll 0 symbols = some next ∧ next.Holds symbols ∧
      next.size = block.size := by
  have empty := holds_nil block
  have room' : ([] : List Symbol).length + symbols.length ≤ block.size := by
    rwa [List.length_nil, Nat.zero_add]
  exact empty.writeAll room'

end Holds

/-- The string that begins in the first of the cells. -/
def stringIn : List (Option UInt8) → Option (List UInt8)
  | some byte :: cells => if byte = 0 then some [] else (stringIn cells).map (byte :: ·)
  | _ => none

/-- The string that a library function finds at the pointer. -/
def string (block : Block UInt8) (offset : Nat) : Option (List UInt8) :=
  stringIn (block.cells.drop offset)

/-- The loop that moves a pointer on as long as the byte it points to passes the test. -/
def scan (block : Block UInt8) (test : UInt8 → Bool) (offset : Nat) : Option Nat :=
  if offset < block.size then do
    let byte ← block.read offset
    if test byte then block.scan test (offset + 1) else return offset
  else none
termination_by block.size - offset

/-- The pointer points to this string. -/
def Points (block : Block UInt8) (offset : Nat) (text : List UInt8) : Prop :=
  0 ∉ text ∧ (text ++ [0]).map some <+: block.cells.drop offset

/-- A string ends at its NUL. -/
theorem stringIn_append {text : List UInt8} (noNul : 0 ∉ text) (others : List (Option UInt8)) :
    stringIn ((text ++ [0]).map some ++ others) = some text := by
  induction text with
  | nil => rfl
  | cons byte text ih =>
      obtain ⟨notNul, later⟩ := not_or.mp (List.mem_cons.not.mp noNul)
      change (if byte = 0 then _ else (stringIn ((text ++ [0]).map some ++ others)).map _) = _
      rw [if_neg (Ne.symm notNul), ih later, Option.map_some]

section Points

variable {block : Block UInt8} {offset : Nat} {text rest : List UInt8}

theorem points_ofString (text : CString) : (ofString text).Points 0 text.bytes :=
  ⟨text.noNul, List.prefix_rfl⟩

theorem Points.holds {text : List UInt8} (points : block.Points 0 text) :
    block.Holds (text ++ [0]) :=
  points.2

theorem Holds.points {text : List UInt8} (noNul : 0 ∉ text) (holds : block.Holds (text ++ [0])) :
    block.Points 0 text :=
  ⟨noNul, holds⟩

/-- The NUL behind what is held. -/
theorem Holds.terminate {text : List UInt8} (holds : block.Holds text) (noNul : 0 ∉ text)
    {size : Nat} (same : block.size = size) (room : text.length < size) :
    ∃ next, block.write text.length 0 = some next ∧ next.Points 0 text ∧ next.size = size := by
  obtain ⟨next, written, held, kept⟩ := holds.write (same ▸ room) 0
  exact ⟨next, written, held.points noNul, kept.trans same⟩

/-- The string at the start of what is held, with a NUL behind it. -/
theorem Holds.points_ofBuffer {received : List UInt8} (holds : block.Holds (received ++ [0])) :
    block.Points 0 (CString.ofBuffer received).bytes := by
  have initial : (CString.ofBuffer received).bytes ++ [0] <+: received ++ [0] := by
    have whole : (CString.ofBuffer received).bytes ++ received.dropWhile (· != 0) = received :=
      List.takeWhile_append_dropWhile
    cases behind : received.dropWhile (· != 0) with
    | nil =>
        rw [behind, List.append_nil] at whole
        rw [whole]
    | cons byte others =>
        have stopped : (byte != 0) = false :=
          dropWhile_stops (· != 0) received byte (by rw [behind]; rfl)
        have isNul : byte = 0 := bne_eq_false_iff_eq.mp stopped
        rw [behind, isNul] at whole
        conv_rhs => rw [← whole, List.append_assoc]
        exact (List.prefix_append_right_inj _).mpr ⟨others ++ [0], rfl⟩
  exact ⟨(CString.ofBuffer received).noNul, (initial.map some).trans holds⟩

/-- The NUL is inside of the block. -/
theorem Points.lt_size (points : block.Points offset text) :
    offset + text.length < block.size := by
  have fits := points.2.length_le
  rw [List.length_map, List.length_append, List.length_drop] at fits
  change text.length + 1 ≤ block.size - offset at fits
  omega

theorem Points.inside (points : block.Points offset text) : offset < block.size :=
  Nat.lt_of_le_of_lt (Nat.le_add_right _ _) points.lt_size

/-- A pointer into a string points to the rest of it. -/
theorem Points.drop (points : block.Points offset text) {count : Nat}
    (inside : count ≤ text.length) : block.Points (offset + count) (text.drop count) := by
  obtain ⟨noNul, cells⟩ := points
  refine ⟨fun member => noNul (List.mem_of_mem_drop member), ?_⟩
  rw [← List.drop_drop, ← List.drop_append_of_le_length inside, List.map_drop]
  exact List.IsPrefix.drop cells count

/-- The pointer to what is left of the string. -/
theorem Points.suffix (points : block.Points offset text) (suffix : rest <:+ text) :
    block.Points (offset + (text.length - rest.length)) rest := by
  have moved := points.drop (Nat.sub_le text.length rest.length)
  rwa [← List.suffix_iff_eq_drop.mp suffix] at moved

theorem Points.notNul {byte : UInt8} (points : block.Points offset (byte :: text)) : byte ≠ 0 :=
  Ne.symm (not_or.mp (List.mem_cons.not.mp points.1)).1

theorem Points.next {byte : UInt8} (points : block.Points offset (byte :: text)) :
    block.Points (offset + 1) text :=
  points.drop (Nat.succ_le_succ (Nat.zero_le text.length))

/-- Behind a byte that is not the terminator. -/
theorem Points.tail (points : block.Points offset text) (goesOn : text.headD 0 ≠ 0) :
    block.Points (offset + 1) text.tail := by
  cases text with
  | nil => exact absurd rfl goesOn
  | cons byte text => exact points.next

/-- What is read is the next byte of the string, or the NUL behind it. -/
theorem Points.read (points : block.Points offset text) :
    block.read offset = some (text.headD 0) := by
  obtain ⟨_, others, split⟩ := points
  have here : block.cells[offset]? = (block.cells.drop offset)[0]? := by
    rw [List.getElem?_drop, Nat.add_zero]
  rw [Block.read, here, ← split]
  cases text <;> rfl

/-- The first bytes of a string can be read. -/
theorem Points.readAll (points : block.Points offset text) {count : Nat}
    (inside : count ≤ text.length) : block.readAll offset count = some (text.take count) := by
  induction count generalizing offset text with
  | zero => rw [Block.readAll, List.take_zero]
  | succ count ih =>
      obtain ⟨byte, rest, rfl⟩ := List.exists_cons_of_length_pos (Nat.lt_of_lt_of_le
        (Nat.succ_pos _) inside)
      rw [Block.readAll, points.read, ih points.next (Nat.le_of_succ_le_succ inside),
        List.take_succ_cons]
      rfl

theorem Points.string (points : block.Points offset text) : block.string offset = some text := by
  obtain ⟨noNul, others, split⟩ := points
  rw [Block.string, ← split, stringIn_append noNul]

/-- The loop stops at the end of the string at the latest. -/
theorem Points.scan (points : block.Points offset text) {test : UInt8 → Bool}
    (stops : test 0 = false) :
    ∃ next, block.scan test offset = some next ∧ block.Points next (text.dropWhile test) ∧
      next = offset + (text.takeWhile test).length := by
  induction text generalizing offset with
  | nil =>
      refine ⟨offset, ?_, points, rfl⟩
      rw [Block.scan, if_pos points.inside, points.read, Option.bind_eq_bind, Option.bind_some,
        List.headD_nil, stops, if_neg Bool.false_ne_true]
      rfl
  | cons byte text ih =>
      rw [Block.scan, if_pos points.inside, points.read, Option.bind_eq_bind, Option.bind_some,
        List.headD_cons, List.dropWhile_cons, List.takeWhile_cons]
      by_cases more : test byte = true
      · obtain ⟨next, ran, points, place⟩ := ih points.next
        rw [if_pos more, if_pos more, if_pos more]
        refine ⟨next, ran, points, ?_⟩
        rw [place, List.length_cons]
        omega
      · rw [if_neg more, if_neg more, if_neg more]
        exact ⟨offset, rfl, points, rfl⟩

/-- The loop that skips white space. -/
def skipSpace (block : Block UInt8) (offset : Nat) : Option Nat :=
  block.scan (fun byte => byte != 0 && isSpace byte) offset

/-- White space is skipped inside of the string. -/
theorem Points.skipSpace (points : block.Points offset text) :
    ∃ next, block.skipSpace offset = some next ∧ block.Points next (text.dropWhile isSpace) := by
  have test : (fun byte : UInt8 => byte != 0 && isSpace byte) = isSpace := by
    funext byte
    by_cases nul : byte = 0
    · rw [nul]
      rfl
    · rw [bne_iff_ne.mpr nul, Bool.true_and]
  obtain ⟨next, scanned, behind, _⟩ := @Points.scan _ _ _ points isSpace rfl
  refine ⟨next, ?_, behind⟩
  rw [Block.skipSpace, test, scanned]

end Points

end Block

/-- A sum of two `size_t`, which does not wrap. -/
def sizeAdd (left right : Nat) : Option Nat :=
  if left + right ≤ sizeMax then some (left + right) else none

/-- A difference of two `size_t`, which does not wrap. -/
def sizeSub (left right : Nat) : Option Nat :=
  if right ≤ left then some (left - right) else none

/-- A product of two `size_t`, which does not wrap. -/
def sizeMul (left right : Nat) : Option Nat :=
  if left * right ≤ sizeMax then some (left * right) else none

/-- A computation on memory that may fail with an error. -/
abbrev Checked (ε α : Type) : Type := ExceptT ε Option α

/-- The computation always has a result: the error, or a value that is related to the value. -/
def Agrees {ε α β : Type} (relation : α → β → Prop) (run : Checked ε α) : Except ε β → Prop
  | .error message => run.run = some (.error message)
  | .ok b => ∃ a, run.run = some (.ok a) ∧ relation a b

/-- The same for a computation that fails without a message. -/
def Finds {α β : Type} (relation : α → β → Prop) (run : Checked Unit α) : Option β → Prop
  | none => run.run = some (.error ())
  | some b => ∃ a, run.run = some (.ok a) ∧ relation a b

/-- The computation with a message for its failure. -/
def orFail {ε α : Type} (run : Checked Unit α) (message : ε) : Checked ε α :=
  run.adapt fun _ => message

section Agreement

variable {ε α β γ δ : Type} {relation : α → β → Prop} {further : γ → δ → Prop}

theorem Agrees.pure {a : α} {b : β} (related : relation a b) :
    Agrees relation (Pure.pure a : Checked ε α) (.ok b) :=
  ⟨a, rfl, related⟩

theorem Agrees.throw (message : ε) :
    Agrees relation (MonadExcept.throw message : Checked ε α) (.error message) := rfl

/-- A first step that has a result. -/
theorem bind_of_ran {run : Checked ε α} {a : α} (ran : run.run = some (.ok a))
    (next : α → Checked ε γ) : run >>= next = next a := by
  apply ExceptT.ext
  rw [ExceptT.run_bind, ran]
  rfl

/-- A first step that fails. -/
theorem bind_of_failed {run : Checked ε α} {message : ε} (ran : run.run = some (.error message))
    (next : α → Checked ε γ) : (run >>= next).run = some (.error message) := by
  rw [ExceptT.run_bind, ran]
  rfl

theorem run_lift {step : Option α} {a : α} (present : step = some a) :
    (liftM step : Checked ε α).run = some (.ok a) := by
  rw [present]
  rfl

/-- A last step that has a result. -/
theorem Agrees.done {step : Option α} {a : α} {b : β} (present : step = some a)
    (related : relation a b) : Agrees relation (liftM step : Checked ε α) (.ok b) :=
  ⟨a, run_lift present, related⟩

/-- A step that has a result. -/
theorem Agrees.lift {step : Option α} {a : α} (present : step = some a) {next : α → Checked ε γ}
    {spec : Except ε δ} (rest : Agrees further (next a) spec) :
    Agrees further ((liftM step : Checked ε α) >>= next) spec := by
  rwa [bind_of_ran (run_lift present)]

/-- Runs that agree step by step agree. -/
theorem Agrees.bind {run : Checked ε α} {next : α → Checked ε γ} {spec : Except ε β}
    {specNext : β → Except ε δ} (first : Agrees relation run spec)
    (rest : ∀ a b, relation a b → Agrees further (next a) (specNext b)) :
    Agrees further (run >>= next) (spec >>= specNext) := by
  cases spec with
  | error message => exact bind_of_failed first next
  | ok b =>
      obtain ⟨a, ran, related⟩ := first
      rw [bind_of_ran ran]
      exact rest a b related

/-- What is found agrees, and an error where nothing is. -/
theorem Finds.orFail {run : Checked Unit α} {spec : Option β} (finds : Finds relation run spec)
    (message : ε) :
    Agrees relation (Foundation.orFail run message) (spec.elim (.error message) .ok) := by
  have adapted : (Foundation.orFail run message).run =
      run.run.map (Except.mapError fun _ => message) := rfl
  cases spec with
  | none =>
      change (Foundation.orFail run message).run = _
      rw [adapted, show run.run = _ from finds]
      rfl
  | some b =>
      obtain ⟨a, ran, related⟩ := finds
      refine ⟨a, ?_, related⟩
      rw [adapted, ran]
      rfl

/-- A step that may fail, with a message for its failure. -/
theorem Finds.bind_orFail {run : Checked Unit α} {next : α → Checked ε γ} {spec : Option β}
    {specNext : β → Except ε δ} (first : Finds relation run spec) (message : ε)
    (rest : ∀ a b, relation a b → Agrees further (next a) (specNext b)) :
    Agrees further (Foundation.orFail run message >>= next)
      (spec.elim (.error message) specNext) := by
  have both := (first.orFail message).bind rest
  cases spec <;> exact both

/-- A step that is known to succeed. -/
theorem Finds.ran {run : Checked Unit α} {a : α} (ran : run.run = some (.ok a))
    {next : α → Checked Unit γ} {spec : Option δ} (rest : Finds further (next a) spec) :
    Finds further (run >>= next) spec := by
  rwa [bind_of_ran ran]

/-- A step that is known to fail. -/
theorem Finds.failed {run : Checked Unit α} (ran : run.run = some (.error ()))
    {next : α → Checked Unit γ} : Finds further (run >>= next) none :=
  bind_of_failed ran next

theorem Finds.lift {step : Option α} {a : α} (present : step = some a) {next : α → Checked Unit γ}
    {spec : Option δ} (rest : Finds further (next a) spec) :
    Finds further ((liftM step : Checked Unit α) >>= next) spec :=
  Finds.ran (run_lift present) rest

/-- What is found step by step is found. -/
theorem Finds.bind {run : Checked Unit α} {next : α → Checked Unit γ} {spec : Option β}
    {specNext : β → Option δ} (first : Finds relation run spec)
    (rest : ∀ a b, relation a b → Finds further (next a) (specNext b)) :
    Finds further (run >>= next) (spec.bind specNext) := by
  cases spec with
  | none => exact Finds.failed first
  | some b =>
      obtain ⟨a, ran, related⟩ := first
      exact Finds.ran ran (rest a b related)

/-- A test of what has been found. -/
theorem Finds.filter {run : Checked Unit α} {next : α → Checked Unit α} {spec : Option β}
    {keep : β → Bool} (first : Finds relation run spec)
    (rest : ∀ a b, relation a b →
      Finds relation (next a) (if keep b then some b else none)) :
    Finds relation (run >>= next) (spec.filter keep) := by
  cases spec with
  | none => exact Finds.failed first
  | some b =>
      obtain ⟨a, ran, related⟩ := first
      exact Finds.ran ran (rest a b related)

end Agreement

namespace Block

/-- The loop that copies the bytes that pass the test, as long as there is room for one more
and a NUL behind it: the object, the number of bytes in it, and where the loop stopped. -/
def copyWhile (block : Block UInt8) (test : UInt8 → Bool) (outSize cur : Nat)
    (out : Block UInt8) (len : Nat) : Checked Unit (Block UInt8 × Nat × Nat) :=
  if cur < block.size then do
    let byte ← block.read cur
    if test byte then
      if outSize ≤ len + 1 then throw ()
      else do
        let out ← out.write len byte
        block.copyWhile test outSize (cur + 1) out (len + 1)
    else return (out, len, cur)
  else liftM (none : Option (Block UInt8 × Nat × Nat))
termination_by block.size - cur

variable {block out : Block UInt8} {text copied : List UInt8} {outSize cur : Nat}

/-- The run of bytes is copied if it fits with its NUL. -/
theorem Points.copyWhile (points : block.Points cur text) {test : UInt8 → Bool}
    (stops : test 0 = false) (holds : out.Holds copied) (size : out.size = outSize)
    (room : copied.length < outSize) :
    Finds (fun result run => result.1.Holds (copied ++ run.1) ∧ result.1.size = outSize ∧
        result.2.1 = (copied ++ run.1).length ∧ result.2.1 < outSize ∧
        block.Points result.2.2 run.2)
      (block.copyWhile test outSize cur out copied.length)
      (if copied.length + (text.takeWhile test).length < outSize then
        some (text.takeWhile test, text.dropWhile test) else none) := by
  have inside : cur < block.size :=
    points.inside
  induction text generalizing cur out copied with
  | nil =>
      rw [Block.copyWhile, if_pos inside]
      apply Finds.lift points.read
      rw [List.headD_nil, stops, if_neg Bool.false_ne_true, List.takeWhile_nil, List.length_nil,
        Nat.add_zero, if_pos room]
      refine ⟨_, rfl, ?_, size, ?_, room, points⟩
      · rwa [List.append_nil]
      · rw [List.append_nil]
  | cons byte text ih =>
      rw [Block.copyWhile, if_pos inside]
      apply Finds.lift points.read
      rw [List.headD_cons, List.takeWhile_cons, List.dropWhile_cons]
      by_cases more : test byte = true
      · rw [if_pos more, if_pos more, if_pos more, List.length_cons]
        by_cases full : outSize ≤ copied.length + 1
        · rw [if_pos full, if_neg (by omega)]
          exact rfl
        · rw [if_neg full]
          obtain ⟨next, written, held, same⟩ := holds.write (size ▸ room) byte
          apply Finds.lift written
          have later := ih points.next held (same.trans size) (by
            rw [List.length_append, List.length_singleton]
            omega) points.next.inside
          rw [List.length_append, List.length_singleton] at later
          have sum : copied.length + 1 + (text.takeWhile test).length =
              copied.length + ((text.takeWhile test).length + 1) := by omega
          rw [sum] at later
          split at later
          · next fits =>
              rw [if_pos fits]
              obtain ⟨result, ran, holds', rest⟩ := later
              rw [List.append_assoc] at holds' rest
              exact ⟨result, ran, holds', rest⟩
          · next misfit =>
              rw [if_neg misfit]
              exact later
      · rw [if_neg more, if_neg more, if_neg more, List.length_nil, Nat.add_zero, if_pos room]
        refine ⟨_, rfl, ?_, size, ?_, room, points⟩
        · rwa [List.append_nil]
        · rw [List.append_nil]

end Block

end MiniDbms.Foundation
