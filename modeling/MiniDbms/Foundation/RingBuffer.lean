import Mathlib.Data.Nat.ModEq
import Mathlib.Logic.Function.Basic

/-! # Ring buffers

An array of `capacity` slots holds a queue that begins at `head` and wraps around. Putting
an item at `tail` appends it to the queue (`MiniDbms.Foundation.RingBuffer.contents_put`), and
moving `head` on takes the first item off it
(`MiniDbms.Foundation.RingBuffer.contents_eq_front_cons`).
-/

namespace MiniDbms.Foundation

universe u

structure RingBuffer (α : Type u) where
  slots : Nat → α
  capacity : Nat
  head : Nat
  tail : Nat
  count : Nat

namespace RingBuffer

variable {α : Type u} {ring : RingBuffer α}

/-- The queue. -/
def contents (ring : RingBuffer α) : List α :=
  (List.range ring.count).map fun place => ring.slots ((ring.head + place) % ring.capacity)

/-- The first item, if there is one. -/
def front (ring : RingBuffer α) : α := ring.slots ring.head

def put (ring : RingBuffer α) (item : α) : RingBuffer α :=
  { ring with
    slots := Function.update ring.slots ring.tail item
    tail := (ring.tail + 1) % ring.capacity
    count := ring.count + 1 }

def advance (ring : RingBuffer α) : RingBuffer α :=
  { ring with
    head := (ring.head + 1) % ring.capacity
    count := ring.count - 1 }

/-- The queue fits into the slots, and `tail` is behind its last item. -/
structure Sound (ring : RingBuffer α) : Prop where
  head_lt : ring.head < ring.capacity
  count_le : ring.count ≤ ring.capacity
  tail_eq : ring.tail = (ring.head + ring.count) % ring.capacity

@[simp] theorem length_contents (ring : RingBuffer α) : ring.contents.length = ring.count := by
  simp only [contents, List.length_map, List.length_range]

/-- Within one round, different places have different slots. -/
theorem slot_ne {capacity place other : Nat} (head : Nat) (earlier : place < other)
    (bound : other < capacity) : (head + place) % capacity ≠ (head + other) % capacity := by
  intro same
  have congruent : place ≡ other [MOD capacity] :=
    Nat.ModEq.add_left_cancel' head same
  exact earlier.ne (congruent.eq_of_lt_of_lt (earlier.trans bound) bound)

/-- Putting an item into a ring with room keeps it sound. -/
theorem Sound.put (sound : ring.Sound) (room : ring.count < ring.capacity) (item : α) :
    (ring.put item).Sound where
  head_lt := sound.head_lt
  count_le := room
  tail_eq := by
    change (ring.tail + 1) % ring.capacity = (ring.head + (ring.count + 1)) % ring.capacity
    rw [sound.tail_eq, Nat.mod_add_mod, Nat.add_assoc]

/-- **Putting** an item appends it to the queue. -/
theorem contents_put (sound : ring.Sound) (room : ring.count < ring.capacity) (item : α) :
    (ring.put item).contents = ring.contents ++ [item] := by
  have kept : ∀ place ∈ List.range ring.count,
      Function.update ring.slots ring.tail item ((ring.head + place) % ring.capacity) =
        ring.slots ((ring.head + place) % ring.capacity) := by
    intro place member
    apply Function.update_of_ne
    rw [sound.tail_eq]
    exact slot_ne ring.head (List.mem_range.mp member) room
  simp only [contents, put, List.range_succ, List.map_append, List.map_cons, List.map_nil]
  rw [List.map_congr_left kept, ← sound.tail_eq, Function.update_self]

theorem Sound.advance (sound : ring.Sound) (occupied : 0 < ring.count) :
    ring.advance.Sound where
  head_lt := Nat.mod_lt _ (Nat.zero_lt_of_lt sound.head_lt)
  count_le := (Nat.sub_le _ _).trans sound.count_le
  tail_eq := by
    change ring.tail = ((ring.head + 1) % ring.capacity + (ring.count - 1)) % ring.capacity
    rw [sound.tail_eq, Nat.mod_add_mod, Nat.add_assoc, Nat.add_sub_cancel' occupied]

/-- **Taking** the first item leaves the others in their order. -/
theorem contents_eq_front_cons (sound : ring.Sound) (occupied : 0 < ring.count) :
    ring.contents = ring.front :: ring.advance.contents := by
  obtain ⟨others, same⟩ := Nat.exists_eq_add_one_of_ne_zero occupied.ne'
  simp only [contents, front, RingBuffer.advance, same, Nat.add_sub_cancel, List.range_succ_eq_map,
    List.map_cons, Nat.add_zero, Nat.mod_eq_of_lt sound.head_lt, List.map_map]
  congr 1
  apply List.map_congr_left
  intro place _
  rw [Function.comp_apply, Nat.mod_add_mod, Nat.succ_eq_add_one, Nat.add_assoc,
    Nat.add_comm 1 place]

end RingBuffer

end MiniDbms.Foundation
