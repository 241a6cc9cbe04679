import Mathlib.Data.List.InsertIdx
import MiniDbms.Foundation.Memory

/-! # Counted loops over arrays

A loop runs a body that may have no result. What the body keeps in every round, the loop keeps
(`MiniDbms.Foundation.countUp_rule`, `MiniDbms.Foundation.countDown_rule`). Two such invariants
on arrays: the first items of a list have been written
(`MiniDbms.Foundation.Block.Holds.write_next`), and the last items of a list have moved up by
one place (`MiniDbms.Foundation.Block.Shifted`). A loop that copies a list around a new item
reads it with a second cursor (`MiniDbms.Foundation.cursor`).
-/

namespace MiniDbms.Foundation

section Loops

variable {State : Type} {body : Nat → State → Option State} {bound first : Nat} {state : State}

/-- `for (int i = first; i < bound; i++)`. -/
def countUp (body : Nat → State → Option State) (bound i : Nat) (state : State) : Option State :=
  if i < bound then do
    let state ← body i state
    countUp body bound (i + 1) state
  else return state
termination_by bound - i

/-- `for (int i = first; i > bound; i--)`. -/
def countDown (body : Nat → State → Option State) (bound : Nat) : Nat → State → Option State
  | 0, state => return state
  | i + 1, state =>
      if bound < i + 1 then do
        let state ← body (i + 1) state
        countDown body bound i state
      else return state

/-- A loop that counts up keeps its invariant to the bound, and reaches it. -/
theorem countUp_rule (invariant : Nat → State → Prop) (reached : first ≤ bound)
    (start : invariant first state)
    (round : ∀ i state, first ≤ i → i < bound → invariant i state →
      ∃ next, body i state = some next ∧ invariant (i + 1) next) :
    ∃ last, countUp body bound first state = some last ∧ invariant bound last := by
  fun_induction countUp body bound first state with
  | case1 i state more ih =>
      obtain ⟨next, ran, kept⟩ := round i state (Nat.le_refl i) more start
      obtain ⟨last, others, done⟩ := ih next more kept fun j other later below held =>
        round j other (Nat.le_of_succ_le later) below held
      refine ⟨last, ?_, done⟩
      rw [ran, Option.bind_eq_bind, Option.bind_some, others]
  | case2 i state finished =>
      obtain rfl : i = bound := by omega
      exact ⟨state, rfl, start⟩

/-- So does one that counts down. -/
theorem countDown_rule (invariant : Nat → State → Prop) (reached : bound ≤ first)
    (start : invariant first state)
    (round : ∀ i state, bound ≤ i → i < first → invariant (i + 1) state →
      ∃ next, body (i + 1) state = some next ∧ invariant i next) :
    ∃ last, countDown body bound first state = some last ∧ invariant bound last := by
  induction first generalizing state with
  | zero =>
      obtain rfl : bound = 0 := Nat.le_zero.mp reached
      exact ⟨state, rfl, start⟩
  | succ first ih =>
      rw [countDown]
      split
      · next more =>
          have rounds := Nat.le_of_lt_succ more
          obtain ⟨next, ran, kept⟩ := round first state rounds (Nat.lt_succ_self first) start
          obtain ⟨last, others, done⟩ := ih rounds kept fun i other above below held =>
            round i other above (Nat.lt_succ_of_lt below) held
          refine ⟨last, ?_, done⟩
          rw [ran, Option.bind_eq_bind, Option.bind_some, others]
      · next finished =>
          obtain rfl : bound = first + 1 := by omega
          exact ⟨state, rfl, start⟩

end Loops

namespace Block

variable {Symbol : Type} {block next : Block Symbol} {items : List Symbol} {item : Symbol}
  {i offset other : Nat}

theorem write_of_lt (inside : offset < block.size) (item : Symbol) :
    ∃ next, block.write offset item = some next ∧ next.size = block.size :=
  ⟨_, if_pos inside, List.length_set⟩

/-- A write changes what is read in one place. -/
theorem read_of_write (written : block.write offset item = some next) :
    next.read other = if offset = other then some item else block.read other := by
  unfold write at written
  split at written
  · next room =>
      have inside : offset < block.cells.length := room
      cases written
      change (block.cells.set offset (some item))[other]?.join = _
      rw [List.getElem?_set, if_pos inside]
      split <;> rfl
  · cases written

/-- A block holds the items that can be read from it. -/
theorem holds_iff_read :
    block.Holds items ↔ ∀ i item, items[i]? = some item → block.read i = some item := by
  constructor
  · intro holds i item present
    exact holds.read present
  · intro reads
    apply List.prefix_iff_getElem?.mpr
    intro i inside
    rw [List.length_map] at inside
    have read := reads i items[i] (List.getElem?_eq_getElem inside)
    rw [List.getElem_map]
    exact Option.join_eq_some_iff.mp read

theorem Holds.length_le (holds : block.Holds items) : items.length ≤ block.size := by
  have fits := List.IsPrefix.length_le holds
  rwa [List.length_map] at fits

/-- One more of the items. -/
theorem Holds.write_next (holds : block.Holds (items.take i)) (present : items[i]? = some item)
    (room : items.length ≤ block.size) :
    ∃ next, block.write i item = some next ∧ next.Holds (items.take (i + 1)) ∧
      next.size = block.size := by
  have inside : i < items.length := (List.getElem?_eq_some_iff.mp present).1
  have written := holds.write (by rw [List.length_take]; omega) item
  rw [List.length_take, Nat.min_eq_left inside.le] at written
  rwa [List.take_add_one, present]

/-- Another item in the place of one. -/
theorem Holds.set (holds : block.Holds items) (inside : i < items.length) (item : Symbol) :
    ∃ next, block.write i item = some next ∧ next.Holds (items.set i item) ∧
      next.size = block.size := by
  obtain ⟨next, written, same⟩ := write_of_lt (Nat.lt_of_lt_of_le inside holds.length_le) item
  refine ⟨next, written, holds_iff_read.mpr fun j stored present => ?_, same⟩
  rw [read_of_write written]
  rw [List.getElem?_set] at present
  split
  · next here => rwa [if_pos here, if_pos (here ▸ inside)] at present
  · next elsewhere =>
      rw [if_neg elsewhere] at present
      exact holds.read present

/-- One more of the items that are copied from another object. -/
theorem Holds.copy_next {source : Block Symbol} {whole : List Symbol} {start count : Nat}
    (holds : block.Holds (((whole.drop start).take count).take i)) (held : source.Holds whole)
    (enough : start + count ≤ whole.length) (room : count ≤ block.size) (more : i < count) :
    ∃ item, source.read (start + i) = some item ∧ ∃ next, block.write i item = some next ∧
      next.Holds (((whole.drop start).take count).take (i + 1)) ∧ next.size = block.size := by
  have inside : start + i < whole.length := by omega
  refine ⟨whole[start + i], held.read (List.getElem?_eq_getElem inside), ?_⟩
  apply holds.write_next
  · rw [List.getElem?_take_of_lt more, List.getElem?_drop, List.getElem?_eq_getElem inside]
  · rw [List.length_take]
    omega

/-- Writing further behind what is held. -/
theorem Holds.write_behind (holds : block.Holds items) (behind : items.length ≤ i)
    (inside : i < block.size) (item : Symbol) :
    ∃ next, block.write i item = some next ∧ next.Holds items ∧ next.size = block.size := by
  obtain ⟨next, written, same⟩ := write_of_lt inside item
  refine ⟨next, written, holds_iff_read.mpr fun j stored present => ?_, same⟩
  have before : j < items.length := (List.getElem?_eq_some_iff.mp present).1
  rw [read_of_write written, if_neg (by omega)]
  exact holds.read present

/-- The items from `i` on are one place above theirs, the others are in their places. -/
def Shifted (block : Block Symbol) (items : List Symbol) (i : Nat) : Prop :=
  ∀ j item, items[j]? = some item → block.read (if j < i then j else j + 1) = some item

/-- Before the loop nothing has been shifted. -/
theorem Holds.shifted (holds : block.Holds items) : block.Shifted items items.length := by
  intro j item present
  rw [if_pos (List.getElem?_eq_some_iff.mp present).1]
  exact holds.read present

/-- One more of the items is moved. -/
theorem Shifted.round (shifted : block.Shifted items (i + 1)) (inside : i < items.length)
    (room : items.length < block.size) :
    ∃ item, block.read i = some item ∧ ∃ next, block.write (i + 1) item = some next ∧
      next.Shifted items i ∧ next.size = block.size := by
  have read := shifted i items[i] (List.getElem?_eq_getElem inside)
  rw [if_pos (Nat.lt_succ_self i)] at read
  obtain ⟨next, written, same⟩ := @write_of_lt _ block (i + 1) (by omega) items[i]
  refine ⟨items[i], read, next, written, fun j item present => ?_, same⟩
  rw [read_of_write written]
  have before := shifted j item present
  by_cases moved : j = i
  · subst moved
    rw [List.getElem?_eq_getElem inside] at present
    rwa [if_neg (Nat.lt_irrefl j), if_pos rfl]
  · by_cases below : j < i
    · rw [if_pos (Nat.lt_succ_of_lt below)] at before
      rwa [if_pos below, if_neg (by omega)]
    · rw [if_neg (by omega)] at before
      rwa [if_neg below, if_neg (by omega)]

/-- A new item in the free place. -/
theorem Shifted.insert (shifted : block.Shifted items i) (place : i ≤ items.length)
    (room : items.length < block.size) (item : Symbol) :
    ∃ next, block.write i item = some next ∧ next.Holds (items.insertIdx i item) ∧
      next.size = block.size := by
  obtain ⟨next, written, same⟩ := write_of_lt (Nat.lt_of_le_of_lt place room) item
  refine ⟨next, written, holds_iff_read.mpr fun j stored present => ?_, same⟩
  rw [read_of_write written]
  rw [List.getElem?_insertIdx] at present
  by_cases below : j < i
  · rw [if_pos below] at present
    have before := shifted j stored present
    rw [if_pos below] at before
    rwa [if_neg (by omega)]
  · by_cases here : j = i
    · rw [if_neg below, if_pos here, if_pos (here ▸ place)] at present
      rwa [if_pos here.symm]
    · rw [if_neg below, if_neg here] at present
      have before := shifted (j - 1) stored present
      rw [if_neg (by omega), Nat.sub_add_cancel (by omega)] at before
      rwa [if_neg (Ne.symm here)]

end Block

section Copying

variable {Item : Type} {items : List Item} {item : Item} {place i : Nat}

/-- The second cursor of a loop that copies items and puts a new one at `place`. -/
def cursor (place i : Nat) : Nat := if i ≤ place then i else i - 1

theorem cursor_place (place : Nat) : cursor place (place + 1) = cursor place place := by
  rw [cursor, cursor, if_neg (by omega), if_pos (Nat.le_refl place), Nat.add_sub_cancel]

theorem cursor_succ (other : i ≠ place) : cursor place (i + 1) = cursor place i + 1 := by
  unfold cursor
  split <;> split <;> omega

/-- The cursor stays inside of the items. -/
theorem cursor_lt (other : i ≠ place) (inside : place ≤ items.length)
    (more : i < (items.insertIdx place item).length) : cursor place i < items.length := by
  rw [List.length_insertIdx_of_le_length inside] at more
  unfold cursor
  split <;> omega

/-- The other items are read at the cursor. -/
theorem getElem?_cursor (other : i ≠ place) :
    (items.insertIdx place item)[i]? = items[cursor place i]? := by
  unfold cursor
  split
  · exact List.getElem?_insertIdx_of_lt (by omega)
  · exact List.getElem?_insertIdx_of_gt (by omega)

/-- The item that is copied next, and where it belongs. -/
theorem exists_cursor (other : i ≠ place) (inside : place ≤ items.length)
    (more : i < (items.insertIdx place item).length) :
    ∃ copied, items[cursor place i]? = some copied ∧
      (items.insertIdx place item)[i]? = some copied := by
  have present := List.getElem?_eq_getElem (cursor_lt other inside more)
  exact ⟨_, present, (getElem?_cursor other).trans present⟩

theorem getElem?_place (inside : place ≤ items.length) :
    (items.insertIdx place item)[place]? = some item := by
  rw [List.getElem?_insertIdx_self, if_pos inside]

end Copying

end MiniDbms.Foundation
