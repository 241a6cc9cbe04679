import MiniDbms.Bptree.Node
import MiniDbms.Foundation.SortedEntries

/-! # The ordering invariant of the B+ tree

`MiniDbms.Bptree.Ordered` says that a node of depth `d` is responsible for the
keys from `lo` up to but excluding `hi`: its separators strictly ascend inside
that range and every child is responsible for the range between its neighbours.
The entries of such a node, read from left to right, ascend
(`MiniDbms.Bptree.Ordered.ascending`), and the descent by separators enters the
one child that may hold the key (`MiniDbms.Bptree.Spaced.focus`).
-/

namespace MiniDbms.Bptree

open Foundation

/-- The entries below a node, from left to right. -/
def BpNode.entries : BpNode → List (Int32 × Nat)
  | .leaf _ entries _ => entries
  | .internal first rest => first.entries ++ rest.flatMap fun slot => slot.2.entries
termination_by node => sizeOf node
decreasing_by
  · simp only [BpNode.internal.sizeOf_spec]
    omega
  · have inside := List.sizeOf_lt_of_mem ‹slot ∈ rest›
    obtain ⟨separator, child⟩ := slot
    simp only [Prod.mk.sizeOf_spec, BpNode.internal.sizeOf_spec] at *
    omega

/-- The entries below a row of children. -/
def rowEntries (first : BpNode) (rest : List (Int32 × BpNode)) : List (Int32 × Nat) :=
  first.entries ++ rest.flatMap fun slot => slot.2.entries

@[simp] theorem entries_leaf (address : Nat) (entries : List (Int32 × Nat)) (next : Option Nat) :
    (BpNode.leaf address entries next).entries = entries := by
  rw [BpNode.entries]

@[simp] theorem entries_internal (first : BpNode) (rest : List (Int32 × BpNode)) :
    (BpNode.internal first rest).entries = rowEntries first rest := by
  rw [BpNode.entries, rowEntries]

@[simp] theorem rowEntries_nil (first : BpNode) : rowEntries first [] = first.entries := by
  simp only [rowEntries, List.flatMap_nil, List.append_nil]

@[simp] theorem rowEntries_cons (first : BpNode) (slot : Int32 × BpNode)
    (rest : List (Int32 × BpNode)) :
    rowEntries first (slot :: rest) = first.entries ++ rowEntries slot.2 rest := by
  simp only [rowEntries, List.flatMap_cons]

theorem rowEntries_append (first : BpNode) (front : List (Int32 × BpNode))
    (slot : Int32 × BpNode) (back : List (Int32 × BpNode)) :
    rowEntries first (front ++ slot :: back) =
      rowEntries first front ++ rowEntries slot.2 back := by
  simp only [rowEntries, List.flatMap_append, List.flatMap_cons, List.append_assoc]

/-- The key is at or above `lo` and below `hi`, where they are present. -/
def Within (lo hi : Option Int32) (key : Int32) : Prop :=
  (∀ low ∈ lo, low ≤ key) ∧ ∀ high ∈ hi, key < high

/-- The separator is strictly between `lo` and `hi`, where they are present. -/
def Between (lo hi : Option Int32) (separator : Int32) : Prop :=
  (∀ low ∈ lo, low < separator) ∧ ∀ high ∈ hi, separator < high

section Ranges

variable {lo hi : Option Int32} {key separator : Int32}

theorem within_none (key : Int32) : Within none none key :=
  ⟨nofun, nofun⟩

theorem Between.within_left (between : Between lo hi separator)
    (inside : Within lo (some separator) key) : Within lo hi key :=
  ⟨inside.1, fun high bound => (inside.2 separator rfl).trans (between.2 high bound)⟩

theorem Between.within_right (between : Between lo hi separator)
    (inside : Within (some separator) hi key) : Within lo hi key :=
  ⟨fun low bound => (between.1 low bound).le.trans (inside.1 separator rfl), inside.2⟩

theorem Between.trans_right (between : Between lo hi separator)
    (further : Between (some separator) hi key) : Between lo hi key :=
  ⟨fun low bound => (between.1 low bound).trans (further.1 separator rfl), further.2⟩

theorem Between.trans_left (between : Between lo hi separator)
    (further : Between lo (some separator) key) : Between lo hi key :=
  ⟨further.1, fun high bound => (further.2 separator rfl).trans (between.2 high bound)⟩

theorem Within.left_of_lt (inside : Within lo hi key) (below : key < separator) :
    Within lo (some separator) key :=
  ⟨inside.1, fun _ bound => Option.some.inj bound ▸ below⟩

theorem Within.right_of_le (inside : Within lo hi key) (reached : separator ≤ key) :
    Within (some separator) hi key :=
  ⟨fun _ bound => Option.some.inj bound ▸ reached, inside.2⟩

end Ranges

/-- A row of children separates the range between its separators. -/
def Spaced (covers : Option Int32 → Option Int32 → BpNode → Prop) :
    Option Int32 → Option Int32 → BpNode → List (Int32 × BpNode) → Prop
  | lo, hi, first, [] => covers lo hi first
  | lo, hi, first, slot :: rest =>
      Between lo hi slot.1 ∧ covers lo (some slot.1) first ∧
        Spaced covers (some slot.1) hi slot.2 rest

/-- A node of depth `d` responsible for the keys in `[lo, hi)`. -/
def Ordered : Nat → Option Int32 → Option Int32 → BpNode → Prop
  | 0, lo, hi, .leaf _ entries _ => Ascending entries ∧ ∀ entry ∈ entries, Within lo hi entry.1
  | depth + 1, lo, hi, .internal first rest => Spaced (Ordered depth) lo hi first rest
  | _, _, _, _ => False

section Row

variable {covers : Option Int32 → Option Int32 → BpNode → Prop}
  {lo hi : Option Int32} {first : BpNode} {rest : List (Int32 × BpNode)}

/-- The entries of a row are within its bounds. -/
theorem Spaced.within
    (inside : ∀ lo hi node, covers lo hi node → ∀ entry ∈ node.entries, Within lo hi entry.1)
    (spaced : Spaced covers lo hi first rest) :
    ∀ entry ∈ rowEntries first rest, Within lo hi entry.1 := by
  induction rest generalizing lo first with
  | nil => simpa only [rowEntries_nil] using inside lo hi first spaced
  | cons slot rest ih =>
      obtain ⟨between, covered, others⟩ := spaced
      intro entry member
      rw [rowEntries_cons] at member
      rcases List.mem_append.mp member with head | tail
      · exact between.within_left (inside _ _ _ covered entry head)
      · exact between.within_right (ih others entry tail)

/-- The entries of a row ascend. -/
theorem Spaced.ascending
    (inside : ∀ lo hi node, covers lo hi node → ∀ entry ∈ node.entries, Within lo hi entry.1)
    (ascends : ∀ lo hi node, covers lo hi node → Ascending node.entries)
    (spaced : Spaced covers lo hi first rest) : Ascending (rowEntries first rest) := by
  induction rest generalizing lo first with
  | nil => simpa only [rowEntries_nil] using ascends lo hi first spaced
  | cons slot rest ih =>
      obtain ⟨_, covered, others⟩ := spaced
      rw [rowEntries_cons]
      refine List.pairwise_append.mpr ⟨ascends _ _ _ covered, ih others, ?_⟩
      intro left inLeft right inRight
      calc left.1 < slot.1 := (inside _ _ _ covered left inLeft).2 slot.1 rfl
        _ ≤ right.1 := (Spaced.within inside others right inRight).1 slot.1 rfl

/-- Cutting a row at a separator leaves two rows on either side of it. -/
theorem Spaced.cut {front back : List (Int32 × BpNode)} {middle : Int32 × BpNode}
    (spaced : Spaced covers lo hi first (front ++ middle :: back)) :
    Between lo hi middle.1 ∧ Spaced covers lo (some middle.1) first front ∧
      Spaced covers (some middle.1) hi middle.2 back := by
  induction front generalizing lo first with
  | nil => exact spaced
  | cons slot front ih =>
      obtain ⟨between, covered, others⟩ := spaced
      obtain ⟨cutBetween, left, right⟩ := ih others
      have below : slot.1 < middle.1 := cutBetween.1 slot.1 rfl
      exact ⟨between.trans_right cutBetween,
        ⟨⟨between.1, fun _ bound => Option.some.inj bound ▸ below⟩, covered, left⟩, right⟩

/-- What the descent for `key` finds in a row: the child between `below` and
`above`, its range, and how the row changes when the child is rewritten or
gains a right half. -/
structure Focus (covers : Option Int32 → Option Int32 → BpNode → Prop)
    (lo hi : Option Int32) (first : BpNode) (rest : List (Int32 × BpNode)) (key : Int32)
    (index : Nat) (childLo childHi : Option Int32) (below above : List (Int32 × Nat)) : Prop where
  covered : covers childLo childHi (childAt first rest index)
  inside : Within childLo childHi key
  lower : ∀ entry ∈ below, entry.1 < key
  upper : ∀ entry ∈ above, key < entry.1
  entries : rowEntries first rest = below ++ ((childAt first rest index).entries ++ above)
  rewritten : ∀ child, covers childLo childHi child →
    Spaced covers lo hi (setChild first rest index child).1 (setChild first rest index child).2 ∧
      rowEntries (setChild first rest index child).1 (setChild first rest index child).2 =
        below ++ (child.entries ++ above)
  split : ∀ child separator right, Between childLo childHi separator →
    covers childLo (some separator) child → covers (some separator) childHi right →
    Spaced covers lo hi (setChild first rest index child).1
        ((setChild first rest index child).2.insertIdx index (separator, right)) ∧
      rowEntries (setChild first rest index child).1
          ((setChild first rest index child).2.insertIdx index (separator, right)) =
        below ++ (child.entries ++ right.entries ++ above)

/-- The key is stored in the row exactly when it is stored in the child entered. -/
theorem Focus.mem_keys {key : Int32} {index : Nat} {childLo childHi : Option Int32}
    {below above : List (Int32 × Nat)}
    (focus : Focus covers lo hi first rest key index childLo childHi below above) :
    key ∈ (rowEntries first rest).map Prod.fst ↔
      key ∈ (childAt first rest index).entries.map Prod.fst := by
  have notBelow : key ∉ below.map Prod.fst :=
    not_mem_keys fun entry stored => (focus.lower entry stored).ne
  have notAbove : key ∉ above.map Prod.fst :=
    not_mem_keys fun entry stored => (focus.upper entry stored).ne'
  simp only [focus.entries, List.map_append, List.mem_append, notBelow, notAbove, false_or,
    or_false]

/-- A binding is written to the row by writing it to the child entered. -/
theorem Focus.upsert {key : Int32} {index : Nat} {childLo childHi : Option Int32}
    {below above : List (Int32 × Nat)}
    (focus : Focus covers lo hi first rest key index childLo childHi below above) (value : Nat) :
    upsert key value (rowEntries first rest) =
      below ++ (upsert key value (childAt first rest index).entries ++ above) := by
  rw [focus.entries, upsert_append_of_lt _ focus.lower, upsert_append_of_gt _ focus.upper]

/-- A row of one child. -/
theorem Focus.single {key : Int32} (covered : covers lo hi first) (within : Within lo hi key) :
    Focus covers lo hi first [] key 0 lo hi [] [] where
  covered := covered
  inside := within
  lower := nofun
  upper := nofun
  entries := by simp only [rowEntries_nil, childAt, List.append_nil, List.nil_append]
  rewritten := fun child childCovered => ⟨childCovered, by
    simp only [setChild, rowEntries_nil, List.append_nil, List.nil_append]⟩
  split := fun child separator right between left childCovered => by
    simp only [setChild, List.insertIdx_zero, rowEntries_cons, rowEntries_nil, List.append_nil,
      List.nil_append, and_true]
    exact ⟨between, left, childCovered⟩

/-- The key belongs to the left of the first separator. -/
theorem Focus.left
    (inside : ∀ lo hi node, covers lo hi node → ∀ entry ∈ node.entries, Within lo hi entry.1)
    {slot : Int32 × BpNode} {key : Int32} (spaced : Spaced covers lo hi first (slot :: rest))
    (within : Within lo hi key) (below : key < slot.1) :
    Focus covers lo hi first (slot :: rest) key 0 lo (some slot.1) [] (rowEntries slot.2 rest) := by
  obtain ⟨between, covered, others⟩ := spaced
  exact {
    covered := covered
    inside := within.left_of_lt below
    lower := nofun
    upper := fun entry member =>
      below.trans_le ((Spaced.within inside others entry member).1 slot.1 rfl)
    entries := by simp only [rowEntries_cons, childAt, List.nil_append]
    rewritten := fun child childCovered => by
      simp only [setChild, rowEntries_cons, List.nil_append, and_true]
      exact ⟨between, childCovered, others⟩
    split := fun child separator right inner left childCovered => by
      simp only [setChild, List.insertIdx_zero, rowEntries_cons, List.nil_append,
        List.append_assoc, and_true]
      exact ⟨between.trans_left inner, left,
        ⟨⟨fun _ bound => Option.some.inj bound ▸ inner.2 slot.1 rfl, between.2⟩,
          childCovered, others⟩⟩ }

/-- The key belongs to the right of the first separator. -/
theorem Focus.right
    (inside : ∀ lo hi node, covers lo hi node → ∀ entry ∈ node.entries, Within lo hi entry.1)
    {slot : Int32 × BpNode} {key : Int32} (spaced : Spaced covers lo hi first (slot :: rest))
    (reached : slot.1 ≤ key) {index : Nat} {childLo childHi : Option Int32}
    {below above : List (Int32 × Nat)}
    (focus : Focus covers (some slot.1) hi slot.2 rest key index childLo childHi below above) :
    Focus covers lo hi first (slot :: rest) key (index + 1) childLo childHi
      (first.entries ++ below) above := by
  obtain ⟨between, covered, others⟩ := spaced
  exact {
    covered := focus.covered
    inside := focus.inside
    lower := fun entry member => by
      rcases List.mem_append.mp member with head | tail
      · exact ((inside _ _ _ covered entry head).2 slot.1 rfl).trans_le reached
      · exact focus.lower entry tail
    upper := focus.upper
    entries := by
      rw [rowEntries_cons, focus.entries, childAt, List.append_assoc]
    rewritten := fun child childCovered => by
      obtain ⟨row, held⟩ := focus.rewritten child childCovered
      simp only [setChild, rowEntries_cons, held, List.append_assoc, and_true]
      exact ⟨between, covered, row⟩
    split := fun child separator right inner left childCovered => by
      obtain ⟨row, held⟩ := focus.split child separator right inner left childCovered
      simp only [setChild, List.insertIdx_succ_cons, rowEntries_cons, held, List.append_assoc,
        and_true]
      exact ⟨between, covered, row⟩ }

/-- The descent by separators enters the child responsible for the key. -/
theorem Spaced.focus
    (inside : ∀ lo hi node, covers lo hi node → ∀ entry ∈ node.entries, Within lo hi entry.1)
    (spaced : Spaced covers lo hi first rest) {key : Int32} (within : Within lo hi key) :
    ∃ childLo childHi below above,
      Focus covers lo hi first rest key (childIndexForKey key rest) childLo childHi below
        above := by
  induction rest generalizing lo first with
  | nil => exact ⟨lo, hi, [], [], .single spaced within⟩
  | cons slot rest ih =>
      by_cases reached : slot.1 ≤ key
      · obtain ⟨childLo, childHi, below, above, focus⟩ := ih spaced.2.2 (within.right_of_le reached)
        refine ⟨childLo, childHi, first.entries ++ below, above, ?_⟩
        simp only [childIndexForKey, reached, ↓reduceIte]
        exact .right inside spaced reached focus
      · refine ⟨lo, some slot.1, [], rowEntries slot.2 rest, ?_⟩
        simp only [childIndexForKey, reached, ↓reduceIte]
        exact .left inside spaced within (not_le.mp reached)

@[simp] theorem length_setChild (first : BpNode) (rest : List (Int32 × BpNode)) (index : Nat)
    (child : BpNode) : (setChild first rest index child).2.length = rest.length := by
  induction rest generalizing first index with
  | nil => rfl
  | cons slot rest ih =>
      cases index with
      | zero => rfl
      | succ index => simp only [setChild, List.length_cons, ih]

end Row

/-- The entries of an ordered node are within its bounds. -/
theorem Ordered.within {depth : Nat} {lo hi : Option Int32} {node : BpNode}
    (ordered : Ordered depth lo hi node) : ∀ entry ∈ node.entries, Within lo hi entry.1 := by
  induction depth generalizing lo hi node with
  | zero =>
      cases node with
      | leaf address entries next => simpa only [entries_leaf] using ordered.2
      | internal first rest => exact ordered.elim
  | succ depth ih =>
      cases node with
      | leaf address entries next => exact ordered.elim
      | internal first rest =>
          rw [entries_internal]
          exact Spaced.within (fun _ _ _ covered => ih covered) ordered

/-- The entries of an ordered node ascend. -/
theorem Ordered.ascending {depth : Nat} {lo hi : Option Int32} {node : BpNode}
    (ordered : Ordered depth lo hi node) : Ascending node.entries := by
  induction depth generalizing lo hi node with
  | zero =>
      cases node with
      | leaf address entries next => simpa only [entries_leaf] using ordered.1
      | internal first rest => exact ordered.elim
  | succ depth ih =>
      cases node with
      | leaf address entries next => exact ordered.elim
      | internal first rest =>
          rw [entries_internal]
          exact Spaced.ascending (fun _ _ _ covered => covered.within)
            (fun _ _ _ covered => ih covered) ordered

end MiniDbms.Bptree
