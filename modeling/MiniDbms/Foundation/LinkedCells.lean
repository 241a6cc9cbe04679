import Mathlib.Data.List.Nodup
import Mathlib.Tactic.Common

/-! # Linked cells

Cells have an address and may point to another one. When the cells of a list are linked in
their order and their addresses differ, following the pointers from the first visits the
list (`MiniDbms.Foundation.LinkedCell.Linked.follow`). Replacing the item of a cell, or
splitting a cell in two of which the second is new, keeps the order
(`MiniDbms.Foundation.LinkedCell.Rewired`).
-/

namespace MiniDbms.Foundation

structure LinkedCell (Address Item : Type) where
  address : Address
  item : Item
  next : Option Address
  deriving DecidableEq

namespace LinkedCell

variable {Address Item : Type} {cell : LinkedCell Address Item}
  {cells more memory old new : List (LinkedCell Address Item)} {tail : Option Address}

/-- The pointer to the first of the cells, where `tail` is behind them. -/
def front (tail : Option Address) : List (LinkedCell Address Item) → Option Address
  | [] => tail
  | cell :: _ => some cell.address

/-- Each cell points to the one that follows it, and the last one to `tail`. -/
def Linked (tail : Option Address) : List (LinkedCell Address Item) → Prop
  | [] => True
  | cell :: cells => cell.next = front tail cells ∧ Linked tail cells

def addresses (cells : List (LinkedCell Address Item)) : List Address := cells.map (·.address)

theorem front_append : front tail (cells ++ more) = front (front tail more) cells := by
  cases cells <;> rfl

/-- Two chains are linked when the first one leads to the second one. -/
theorem linked_append :
    Linked tail (cells ++ more) ↔ Linked (front tail more) cells ∧ Linked tail more := by
  induction cells with
  | nil => exact (and_iff_right trivial).symm
  | cons cell cells ih =>
      change cell.next = front tail (cells ++ more) ∧ Linked tail (cells ++ more) ↔ _
      rw [front_append, ih]
      exact and_assoc.symm

section Follow

variable [DecidableEq Address]

/-- The cells that are visited from a pointer on, or nothing where it takes more than `fuel`
steps or a pointer is to none of the cells in memory. -/
def follow (memory : List (LinkedCell Address Item)) :
    Nat → Option Address → Option (List (LinkedCell Address Item))
  | _, none => some []
  | 0, some _ => none
  | fuel + 1, some address => do
      let cell ← memory.find? (·.address == address)
      let others ← follow memory fuel cell.next
      return cell :: others

/-- A cell is found under its address. -/
theorem find?_address (distinct : (addresses memory).Nodup) (member : cell ∈ memory) :
    memory.find? (·.address == cell.address) = some cell := by
  induction memory with
  | nil => exact absurd member List.not_mem_nil
  | cons first memory ih =>
      obtain ⟨absent, later⟩ := List.nodup_cons.mp distinct
      rcases List.mem_cons.mp member with rfl | inside
      · exact List.find?_cons_of_pos (beq_self_eq_true _)
      · have other : first.address ≠ cell.address := fun same =>
          absent (List.mem_map.mpr ⟨cell, inside, same.symm⟩)
        rw [List.find?_cons_of_neg, ih later inside]
        exact fun same => other (eq_of_beq same)

/-- The pointers lead through the cells in their order. -/
theorem Linked.follow (distinct : (addresses memory).Nodup) (linked : Linked none cells)
    (inside : cells ⊆ memory) {fuel : Nat} (enough : cells.length ≤ fuel) :
    follow memory fuel (front none cells) = some cells := by
  induction cells generalizing fuel with
  | nil => cases fuel <;> rfl
  | cons cell cells ih =>
      obtain ⟨fuel, rfl⟩ := Nat.exists_eq_add_one_of_ne_zero (Nat.ne_zero_of_lt enough)
      obtain ⟨next, others⟩ := linked
      obtain ⟨here, later⟩ := List.cons_subset.mp inside
      rw [front, LinkedCell.follow, find?_address distinct here, Option.bind_eq_bind,
        Option.bind_some, next, ih others later (Nat.le_of_succ_le_succ enough)]
      rfl

end Follow

/-- The item of a cell has been replaced, or the cell has been split: it points to a new cell,
which points to where it pointed before. -/
inductive Rewired (isNew : Address → Prop) :
    List (LinkedCell Address Item) → List (LinkedCell Address Item) → Prop where
  | replaced (before : List (LinkedCell Address Item)) (cell : LinkedCell Address Item)
      (after : List (LinkedCell Address Item)) (item : Item) :
      Rewired isNew (before ++ cell :: after) (before ++ { cell with item := item } :: after)
  | split (before : List (LinkedCell Address Item)) (cell : LinkedCell Address Item)
      (after : List (LinkedCell Address Item)) (left right : Item) {address : Address}
      (new : isNew address) :
      Rewired isNew (before ++ cell :: after)
        (before ++ ⟨cell.address, left, some address⟩ :: ⟨address, right, cell.next⟩ :: after)

namespace Rewired

variable {isNew : Address → Prop}

/-- The chain stays linked. -/
theorem linked (rewired : Rewired isNew old new) (linked : Linked tail old) : Linked tail new := by
  cases rewired with
  | replaced before cell after item =>
      obtain ⟨first, next, others⟩ := linked_append.mp linked
      exact linked_append.mpr ⟨first, next, others⟩
  | split before cell after left right new =>
      obtain ⟨first, next, others⟩ := linked_append.mp linked
      exact linked_append.mpr ⟨first, rfl, next, others⟩

/-- What is rewired may be a part of a longer chain. -/
theorem inside (rewired : Rewired isNew old new) (front back : List (LinkedCell Address Item)) :
    Rewired isNew (front ++ (old ++ back)) (front ++ (new ++ back)) := by
  cases rewired with
  | replaced before cell after item =>
      have wider := @replaced _ _ isNew (front ++ before) cell (after ++ back) item
      simpa only [List.append_assoc, List.cons_append] using wider
  | split before cell after left right new =>
      have wider := split (front ++ before) cell (after ++ back) left right new
      simpa only [List.append_assoc, List.cons_append] using wider

/-- More cells may count as new. -/
theorem mono {isNew' : Address → Prop} (weaker : ∀ address, isNew address → isNew' address)
    (rewired : Rewired isNew old new) : Rewired isNew' old new := by
  cases rewired with
  | replaced before cell after item => exact .replaced before cell after item
  | split before cell after left right new =>
      exact .split before cell after left right (weaker _ new)

/-- The addresses are the old ones and new ones. -/
theorem mem_addresses (rewired : Rewired isNew old new) {address : Address}
    (member : address ∈ addresses new) : address ∈ addresses old ∨ isNew address := by
  cases rewired with
  | replaced before cell after item => exact .inl (by simpa [addresses] using member)
  | split before cell after left right new =>
      simp only [addresses, List.map_append, List.map_cons, List.mem_append, List.mem_cons]
        at member ⊢
      rcases member with first | first | rfl | later
      · exact .inl (.inl first)
      · exact .inl (.inr (.inl first))
      · exact .inr new
      · exact .inl (.inr (.inr later))

/-- No address is used twice. -/
theorem nodup (rewired : Rewired isNew old new) (distinct : (addresses old).Nodup)
    (unused : ∀ address ∈ addresses old, ¬ isNew address) : (addresses new).Nodup := by
  cases rewired with
  | replaced before cell after item => simpa [addresses] using distinct
  | @split before cell after left right address new =>
      have absent : address ∉ addresses (before ++ cell :: after) :=
        fun member => unused address member new
      have whole : (address :: addresses (before ++ cell :: after)).Nodup :=
        List.nodup_cons.mpr ⟨absent, distinct⟩
      apply List.Perm.nodup ?_ whole
      simp only [addresses, List.map_append, List.map_cons]
      have moved := @List.perm_middle _ address (before.map (·.address) ++ [cell.address])
        (after.map (·.address))
      simp only [List.append_assoc, List.singleton_append] at moved
      exact moved.symm

end Rewired

end LinkedCell

end MiniDbms.Foundation
