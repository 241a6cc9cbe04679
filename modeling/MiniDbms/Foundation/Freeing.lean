import MiniDbms.Foundation.CountedLoops

/-! # Memory that is given back

Cells are created one after another and may be given to `free`. A freed cell can be neither read
nor freed again, so a computation that has a result uses no freed cell and frees none twice. What
such a computation frees is told by `MiniDbms.Foundation.Frees`; a loop whose rounds free cells
of their own frees them all (`MiniDbms.Foundation.countUp_frees`).
-/

namespace MiniDbms.Foundation

/-- The cells created so far, and the addresses given to `free`. -/
structure Arena (Cell : Type) where
  cells : List Cell
  freed : List Nat

namespace Arena

variable {Cell : Type}

/-- Read a cell, if it is there. -/
def load (arena : Arena Cell) (address : Nat) : Option Cell :=
  if address ∈ arena.freed then none else arena.cells[address]?

/-- `free`, of a cell that is there. -/
def free (arena : Arena Cell) (address : Nat) : Option (Arena Cell) :=
  if address ∉ arena.freed ∧ address < arena.cells.length then
    some { arena with freed := arena.freed ++ [address] }
  else none

end Arena

/-- The addresses in `footprint` have been freed, and nothing else has changed. -/
structure Frees {Cell : Type} (before : Arena Cell) (footprint : List Nat) (after : Arena Cell) :
    Prop where
  cells : after.cells = before.cells
  freed : after.freed.Perm (before.freed ++ footprint)

section Frees

variable {Cell : Type} {before middle after : Arena Cell} {footprint first second : List Nat}

theorem Frees.refl (arena : Arena Cell) : Frees arena [] arena :=
  ⟨rfl, (List.append_nil _).symm ▸ .refl _⟩

/-- One part after the other is freed. -/
theorem Frees.trans (one : Frees before first middle) (two : Frees middle second after) :
    Frees before (first ++ second) after where
  cells := two.cells.trans one.cells
  freed := by
    rw [← List.append_assoc]
    exact two.freed.trans (one.freed.append_right second)

theorem Frees.perm (frees : Frees before first after) (same : first.Perm second) :
    Frees before second after :=
  ⟨frees.cells, frees.freed.trans (same.append_left _)⟩

/-- A cell outside of what is freed is there as before. -/
theorem Frees.load (frees : Frees before footprint after) {address : Nat}
    (outside : address ∉ footprint) : after.load address = before.load address := by
  have same : address ∈ after.freed ↔ address ∈ before.freed := by
    rw [frees.freed.mem_iff, List.mem_append, or_iff_left outside]
  simp only [Arena.load, same, frees.cells]

theorem Frees.notMem (frees : Frees before footprint after) {address : Nat}
    (there : address ∉ before.freed) (outside : address ∉ footprint) : address ∉ after.freed := by
  rw [frees.freed.mem_iff, List.mem_append, not_or]
  exact ⟨there, outside⟩

theorem Arena.load_of_there {arena : Arena Cell} {address : Nat} (there : address ∉ arena.freed) :
    arena.load address = arena.cells[address]? :=
  if_neg there

/-- Freeing one cell. -/
theorem Arena.free_of_there {arena : Arena Cell} {address : Nat} (there : address ∉ arena.freed)
    (created : address < arena.cells.length) :
    ∃ after, arena.free address = some after ∧ Frees arena [address] after :=
  ⟨_, if_pos ⟨there, created⟩, rfl, .refl _⟩

/-- **A loop that frees.** Every round frees the cells of its own row. -/
theorem countUp_frees {rows : List (List Nat)} {body : Nat → Arena Cell → Option (Arena Cell)}
    (arena : Arena Cell)
    (round : ∀ i row state, rows[i]? = some row → Frees arena (rows.take i).flatten state →
      ∃ next, body i state = some next ∧ Frees state row next) :
    ∃ last, countUp body rows.length 0 arena = some last ∧ Frees arena rows.flatten last := by
  have rounds : ∀ i state, 0 ≤ i → i < rows.length → Frees arena (rows.take i).flatten state →
      ∃ next, body i state = some next ∧ Frees arena (rows.take (i + 1)).flatten next := by
    intro i state _ more frees
    have present : rows[i]? = some rows[i] := List.getElem?_eq_getElem more
    obtain ⟨next, ran, here⟩ := round i rows[i] state present frees
    refine ⟨next, ran, ?_⟩
    rw [List.take_add_one, present, Option.toList_some, List.flatten_append, List.flatten_singleton]
    exact frees.trans here
  obtain ⟨last, ran, frees⟩ := countUp_rule (fun i => Frees arena (rows.take i).flatten)
    (Nat.zero_le rows.length) (Frees.refl arena) rounds
  rw [List.take_length] at frees
  exact ⟨last, ran, frees⟩

end Frees

end MiniDbms.Foundation
