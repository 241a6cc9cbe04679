import MiniDbms.Bptree.Map
import Mathlib.Tactic.Ring

/-! # The B+ tree is balanced

Every node but the root is at least half full and no node overflows
(`MiniDbms.Bptree.Filled`). While no allocation is refused an insertion keeps
this: a node that does not split is one child or entry larger at most, and the
halves of a node that splits are halves of thirty-two
(`MiniDbms.Bptree.nodeInsert_filled`). A tree built by insertions therefore has
all its leaves at one depth, which its size bounds
(`MiniDbms.Bptree.insertAll_balanced`).
-/

namespace MiniDbms.Bptree

open Foundation

/-- `node->keys[0 .. num_keys)`. -/
def BpNode.keys : BpNode → List Int32
  | .leaf _ entries _ => entries.map Prod.fst
  | .internal _ rest => rest.map Prod.fst

/-- `node->children[0 .. num_keys]`, of an internal node. -/
def BpNode.children : BpNode → List BpNode
  | .leaf _ _ _ => []
  | .internal first rest => first :: rest.map Prod.snd

/-- `node->is_leaf`. -/
def BpNode.isLeaf : BpNode → Bool
  | .leaf _ _ _ => true
  | .internal _ _ => false

/-- `Reached node level inner`: `inner` is found `level` child pointers below `node`. -/
inductive Reached : BpNode → Nat → BpNode → Prop where
  | here (node : BpNode) : Reached node 0 node
  | down {node child inner : BpNode} {level : Nat} (member : child ∈ node.children)
      (further : Reached child level inner) : Reached node (level + 1) inner

/-- The nodes that `bptree_search` visits, from the root of the search down to a leaf. -/
def searchPath (node : BpNode) (key : Int32) : List BpNode :=
  match node with
  | .leaf address entries next => [.leaf address entries next]
  | .internal first rest =>
      .internal first rest :: searchPath (childAt first rest (childIndexForKey key rest)) key
termination_by sizeOf node
decreasing_by
  have smaller := sizeOf_childAt_le first rest (childIndexForKey key rest)
  simp only [BpNode.internal.sizeOf_spec]
  omega

/-- The search answers from the last node visited. -/
theorem nodeSearch_eq_last (node : BpNode) (key : Int32) :
    ∃ address entries next, (searchPath node key).getLast? = some (.leaf address entries next) ∧
      nodeSearch node key = nodeSearch (.leaf address entries next) key := by
  fun_induction searchPath node key with
  | case1 address entries next => exact ⟨address, entries, next, rfl, rfl⟩
  | case2 first rest ih =>
      obtain ⟨address, entries, next, last, answered⟩ := ih
      refine ⟨address, entries, next, ?_, ?_⟩
      · rw [List.getLast?_cons, last, Option.getD_some]
      · rw [← answered, nodeSearch]

/-- Rewriting one child leaves no other child but the old ones and the new one. -/
theorem mem_children_setChild {first : BpNode} {rest : List (Int32 × BpNode)} {index : Nat}
    {child node : BpNode}
    (member : node ∈ (BpNode.internal (setChild first rest index child).1
      (setChild first rest index child).2).children) :
    node = child ∨ node ∈ (BpNode.internal first rest).children := by
  induction rest generalizing first index with
  | nil => exact .inl (List.mem_singleton.mp member)
  | cons slot rest ih =>
      cases index with
      | zero =>
          rcases List.mem_cons.mp member with same | other
          · exact .inl same
          · exact .inr (List.mem_cons_of_mem _ other)
      | succ index =>
          rcases List.mem_cons.mp member with same | other
          · exact .inr (same ▸ List.mem_cons_self)
          · rcases ih other with same | old
            · exact .inl same
            · exact .inr (List.mem_cons_of_mem _ old)

/-- The child that is looked up is one of the children. -/
theorem childAt_mem_children (first : BpNode) (rest : List (Int32 × BpNode)) (index : Nat) :
    childAt first rest index ∈ (BpNode.internal first rest).children := by
  induction rest generalizing first index with
  | nil => simp only [childAt, BpNode.children, List.map_nil, List.mem_singleton]
  | cons slot rest ih =>
      cases index with
      | zero => exact List.mem_cons_self
      | succ index => exact List.mem_cons_of_mem _ (ih slot.2 index)

/-- `node` is the root of a subtree all of whose leaves are `depth` levels below
it, where no node overflows and every node is half full. A subtree that is a
whole tree (`whole`) may have fewer keys at its own root. -/
def Filled (whole : Bool) : Nat → BpNode → Prop
  | 0, .leaf _ entries _ => (whole = false → 16 ≤ entries.length) ∧ entries.length ≤ bptreeMaxKeys
  | depth + 1, .internal first rest =>
      1 ≤ rest.length ∧ (whole = false → 15 ≤ rest.length) ∧ rest.length ≤ bptreeMaxKeys ∧
        ∀ child ∈ (BpNode.internal first rest).children, Filled false depth child
  | _, _ => False

/-- A node that is filled below the root is filled as a root, too. -/
theorem Filled.whole {whole : Bool} {depth : Nat} {node : BpNode}
    (filled : Filled false depth node) : Filled whole depth node := by
  cases depth <;> cases node
  · exact ⟨fun _ => filled.1 rfl, filled.2⟩
  · exact filled.elim
  · exact filled.elim
  · exact ⟨filled.1, fun _ => filled.2.1 rfl, filled.2.2⟩

/-- A node and the right half split off it, if any, are as full as they must be. -/
structure FilledAfter (whole : Bool) (depth : Nat) (after : BpNode) (result : InsertResult) :
    Prop where
  one : result.split = none → Filled whole depth after
  two : ∀ promoted right, result.split = some (promoted, right) →
    Filled false depth after ∧ Filled false depth right

/-- The position of a key is in the leaf or just behind it. -/
theorem leafFindPosition_le (key : Int32) (entries : List (Int32 × Nat)) :
    leafFindPosition key entries ≤ entries.length := by
  induction entries with
  | nil => exact Nat.le_refl 0
  | cons entry entries ih =>
      simp only [leafFindPosition, List.length_cons]
      split <;> omega

/-- A leaf that was refused nothing stays filled, or splits into two filled leaves. -/
theorem leafInsert_filled {whole : Bool} {address : Nat} {entries : List (Int32 × Nat)}
    {next : Option Nat} {key : Int32} {value : Nat} {supply : NodeSupply}
    (filled : Filled whole 0 (.leaf address entries next))
    (granted : (leafInsert address entries next key value supply).2.2.heap.refused = false) :
    FilledAfter whole 0 (leafInsert address entries next key value supply).1
      (leafInsert address entries next key value supply).2.1 := by
  obtain ⟨least, most⟩ := filled
  have grown := List.length_insertIdx_of_le_length (leafFindPosition_le key entries) (key, value)
  simp only [leafInsert] at granted ⊢
  split
  · exact ⟨fun _ => ⟨by rwa [List.length_set], by rwa [List.length_set]⟩,
      fun _ _ impossible => by cases impossible⟩
  · rename_i absent
    rw [if_neg absent] at granted
    split
    · rename_i room
      refine ⟨fun _ => ⟨fun inner => ?_, ?_⟩, fun _ _ impossible => by cases impossible⟩
      · have := least inner
        omega
      · omega
    · rename_i full
      rw [if_neg full] at granted
      rcases ran : nodeCreate supply with ⟨_ | rightAddress, after⟩
      · simp only [ran] at granted
        obtain ⟨_, impossible⟩ := (nodeCreate_granted ran granted).2
        cases impossible
      · refine ⟨(fun impossible => by cases impossible), fun promoted right split => ?_⟩
        cases split
        simp only [bptreeMaxKeys] at full most
        constructor
        · exact ⟨fun _ => by simp only [bptreeMaxKeys, List.length_take]; omega,
            by simp only [bptreeMaxKeys, List.length_take]; omega⟩
        · exact ⟨fun _ => by simp only [bptreeMaxKeys, List.length_drop]; omega,
            by simp only [bptreeMaxKeys, List.length_drop]; omega⟩

theorem mem_children_cons {first : BpNode} {rest : List (Int32 × BpNode)} {node : BpNode} :
    node ∈ (BpNode.internal first rest).children ↔
      node = first ∨ ∃ slot ∈ rest, slot.2 = node := by
  simp only [BpNode.children, List.mem_cons, List.mem_map]

/-- `absorb_split`: the row with the new right half is kept, or cut into sixteen
and fifteen keys around the one promoted. -/
theorem absorbSplit_filled {whole : Bool} {depth : Nat} {first : BpNode}
    {rest : List (Int32 × BpNode)} {childIdx : Nat} {promotedKey : Int32} {right : BpNode}
    {insertedNew : Bool} {supply : NodeSupply}
    (filled : Filled whole (depth + 1) (.internal first rest))
    (rightFilled : Filled false depth right) (position : childIdx ≤ rest.length)
    (granted : (absorbSplit first rest childIdx promotedKey right insertedNew
      supply).2.2.heap.refused = false) :
    FilledAfter whole (depth + 1)
      (absorbSplit first rest childIdx promotedKey right insertedNew supply).1
      (absorbSplit first rest childIdx promotedKey right insertedNew supply).2.1 := by
  obtain ⟨some, least, most, inside⟩ := filled
  have grown := List.length_insertIdx_of_le_length position (promotedKey, right)
  have all : ∀ slot ∈ rest.insertIdx childIdx (promotedKey, right), Filled false depth slot.2 := by
    intro slot member
    rcases (List.mem_insertIdx position).mp member with rfl | old
    · exact rightFilled
    · exact inside _ (mem_children_cons.mpr (.inr ⟨slot, old, rfl⟩))
  have row : ∀ {head : BpNode} {slots : List (Int32 × BpNode)}, Filled false depth head →
      (∀ slot ∈ slots, slot ∈ rest.insertIdx childIdx (promotedKey, right)) →
      ∀ child ∈ (BpNode.internal head slots).children, Filled false depth child := by
    intro head slots headFilled kept child member
    rcases mem_children_cons.mp member with rfl | ⟨slot, present, rfl⟩
    · exact headFilled
    · exact all slot (kept slot present)
  have firstFilled := inside first (mem_children_cons.mpr (.inl rfl))
  rcases absorbSplit_cases position granted with
    ⟨room, same⟩ | ⟨full, left, middle, behind, address, after, cut, length, _, same⟩ <;> rw [same]
  · refine ⟨fun _ => ⟨by omega, fun inner => ?_, by omega, row firstFilled fun _ kept => kept⟩,
      nofun⟩
    have := least inner
    omega
  · refine ⟨nofun, fun promoted node halved => ?_⟩
    cases halved
    rw [cut] at grown all row
    rw [List.length_append, List.length_cons] at grown
    have limit : bptreeMaxKeys = 31 := rfl
    have kept : ∀ slot ∈ left, slot ∈ left ++ middle :: behind :=
      fun _ => List.mem_append_left _
    have moved : ∀ slot ∈ behind, slot ∈ left ++ middle :: behind :=
      fun _ member => List.mem_append_right _ (List.mem_cons_of_mem _ member)
    have middleFilled := all middle (List.mem_append_right _ List.mem_cons_self)
    refine ⟨⟨?_, fun _ => ?_, ?_, row firstFilled kept⟩,
      ⟨?_, fun _ => ?_, ?_, row middleFilled moved⟩⟩ <;> omega

/-- **Insertion keeps the occupancy.** The induction is on the depth of the node. -/
theorem nodeInsert_filled {whole : Bool} {depth : Nat} {node : BpNode} {key : Int32}
    {value : Nat} {supply : NodeSupply} (filled : Filled whole depth node)
    (granted : (nodeInsert node key value supply).2.2.heap.refused = false) :
    FilledAfter whole depth (nodeInsert node key value supply).1
      (nodeInsert node key value supply).2.1 := by
  induction depth generalizing whole node supply with
  | zero =>
      cases node with
      | leaf address entries next =>
          rw [nodeInsert] at granted ⊢
          exact leafInsert_filled filled granted
      | internal first rest => exact filled.elim
  | succ depth ih =>
      cases node with
      | leaf address entries next => exact filled.elim
      | internal first rest =>
          rw [nodeInsert] at granted ⊢
          obtain ⟨some, least, most, inside⟩ := filled
          have position := childIndexForKey_le key rest
          generalize childIndexForKey key rest = childIdx at granted position ⊢
          have inner := @ih false (childAt first rest childIdx) supply
            (inside _ (childAt_mem_children first rest childIdx))
          rcases ran : nodeInsert (childAt first rest childIdx) key value supply with
            ⟨child, childResult, after⟩
          rw [ran] at granted inner
          have rewritten : Filled false depth child → Filled whole (depth + 1)
              (.internal (setChild first rest childIdx child).1
                (setChild first rest childIdx child).2) := by
            intro childFilled
            refine ⟨by rwa [length_setChild], fun part => by rw [length_setChild]; exact least part,
              by rwa [length_setChild], fun other member => ?_⟩
            rcases mem_children_setChild member with rfl | old
            · exact childFilled
            · exact inside other old
          rcases childResult with ⟨_ | ⟨promotedKey, right⟩, insertedNew⟩
          · exact ⟨fun _ => rewritten ((inner granted).one rfl),
              fun _ _ impossible => by cases impossible⟩
          · obtain ⟨leftFilled, rightFilled⟩ :=
              (inner (absorbSplit_granted granted)).two promotedKey right rfl
            refine absorbSplit_filled (rewritten leftFilled) rightFilled ?_ granted
            rwa [length_setChild]

/-- The root of the tree is the root of a filled whole tree. -/
def Balanced (tree : BPlusTree) : Prop :=
  ∀ root ∈ tree.root, ∃ depth, Filled true depth root

/-- A balanced tree has a filled root once it has one. -/
theorem balanced_ensureRoot {tree : BPlusTree} (balanced : Balanced tree) {heap : Heap}
    {root : BpNode} {supply : NodeSupply} (ran : ensureRoot tree heap = (some root, supply)) :
    ∃ depth, Filled true depth root := by
  rcases ensureRoot_cases ran with ⟨_, present, _⟩ | ⟨_, created, _, isLeaf⟩
  · exact balanced _ present.symm
  · obtain ⟨address, _, rfl⟩ := Option.map_eq_some_iff.mp isLeaf.symm
    exact ⟨0, nofun, Nat.zero_le _⟩

/-- `bptree_insert` keeps the tree balanced; only the growth of a new root makes
it deeper. -/
theorem Balanced.insert {tree : BPlusTree} (balanced : Balanced tree) {key : Int32} {value : Nat}
    {heap : Heap} (granted : (bptreeInsert tree key value heap).2.2.refused = false) :
    Balanced (bptreeInsert tree key value heap).2.1 := by
  cases grantedInsert granted with
  | kept root node insertedNew supply after rooted ran granted returned =>
      obtain ⟨depth, filled⟩ := balanced_ensureRoot balanced rooted
      have spec := @nodeInsert_filled true depth root key value supply filled
      rw [ran] at spec
      rw [returned]
      rintro _ ⟨⟩
      exact ⟨depth, (spec granted).one rfl⟩
  | grown root node right promoted insertedNew supply after final address rooted ran granted _
      returned =>
      obtain ⟨depth, filled⟩ := balanced_ensureRoot balanced rooted
      have spec := @nodeInsert_filled true depth root key value supply filled
      rw [ran] at spec
      obtain ⟨left, other⟩ := (spec granted).two promoted right rfl
      rw [returned]
      rintro _ ⟨⟩
      refine ⟨depth + 1, Nat.le_refl 1, (fun impossible => by cases impossible),
        Nat.le_add_left 1 30, fun child member => ?_⟩
      rcases mem_children_cons.mp member with rfl | ⟨slot, present, rfl⟩
      · exact left
      · rw [List.mem_singleton.mp present]
        exact other

theorem insertAll_filled (writes : List (Int32 × Nat)) {heap : Heap}
    (granted : (insertAll writes heap).2.1.refused = false) :
    Balanced (insertAll writes heap).1 :=
  insertAll_induction nofun (fun _ _ _ _ balanced granted => balanced.insert granted) writes granted

/-- The separators ascend and lie between the bounds. -/
theorem Spaced.separators {covers : Option Int32 → Option Int32 → BpNode → Prop}
    {lo hi : Option Int32} {first : BpNode} {rest : List (Int32 × BpNode)}
    (spaced : Spaced covers lo hi first rest) :
    (rest.map Prod.fst).Pairwise (· < ·) ∧ ∀ separator ∈ rest.map Prod.fst,
      Between lo hi separator := by
  induction rest generalizing lo first with
  | nil => exact ⟨List.Pairwise.nil, nofun⟩
  | cons slot rest ih =>
      obtain ⟨between, _, others⟩ := spaced
      obtain ⟨ascending, further⟩ := ih others
      constructor
      · exact List.pairwise_cons.mpr ⟨fun _ later => (further _ later).1 slot.1 rfl, ascending⟩
      · intro separator member
        rcases List.mem_cons.mp member with rfl | later
        · exact between
        · exact between.trans_right (further separator later)

/-- The lower bound of the child at position `index`. -/
def childLow (lo : Option Int32) (rest : List (Int32 × BpNode)) : Nat → Option Int32
  | 0 => lo
  | index + 1 => (rest.map Prod.fst)[index]?

/-- The child at position `index` is responsible for the range between its
neighbouring separators. -/
theorem Spaced.child {covers : Option Int32 → Option Int32 → BpNode → Prop}
    {lo hi : Option Int32} {first : BpNode} {rest : List (Int32 × BpNode)}
    (spaced : Spaced covers lo hi first rest) {index : Nat} {child : BpNode}
    (present : (first :: rest.map Prod.snd)[index]? = some child) :
    let childHi := ((rest.map Prod.fst)[index]?).or hi
    covers (childLow lo rest index) childHi child ∧
      ∀ key, Within (childLow lo rest index) childHi key → Within lo hi key := by
  induction rest generalizing lo first index with
  | nil =>
      cases index with
      | zero =>
          cases present
          exact ⟨spaced, fun _ inside => inside⟩
      | succ index => cases present
  | cons slot rest ih =>
      obtain ⟨between, covered, others⟩ := spaced
      cases index with
      | zero =>
          cases present
          exact ⟨covered, fun _ inside => between.within_left inside⟩
      | succ index =>
          have leading : childLow lo (slot :: rest) (index + 1) =
              childLow (some slot.1) rest index := by
            cases index <;> rfl
          obtain ⟨held, inside⟩ := ih others present
          rw [leading]
          exact ⟨held, fun key within => between.within_right (inside key within)⟩

/-- The keys written in a node lie in its range, and ascend. -/
theorem Ordered.keys {depth : Nat} {lo hi : Option Int32} {node : BpNode}
    (ordered : Ordered depth lo hi node) :
    node.keys.Pairwise (· < ·) ∧ ∀ key ∈ node.keys, Within lo hi key := by
  cases depth <;> cases node
  · refine ⟨List.pairwise_map.mpr ordered.1, fun key member => ?_⟩
    obtain ⟨entry, stored, rfl⟩ := List.mem_map.mp member
    exact ordered.2 entry stored
  · exact ordered.elim
  · exact ordered.elim
  · obtain ⟨ascending, between⟩ := Spaced.separators ordered
    refine ⟨ascending, fun key member => ?_⟩
    obtain ⟨lower, upper⟩ := between key member
    exact ⟨fun low bound => (lower low bound).le, upper⟩

/-- Every node below an ordered one is ordered in a part of its range. -/
theorem Ordered.reached {depth level : Nat} {lo hi : Option Int32} {node inner : BpNode}
    (ordered : Ordered depth lo hi node) (reached : Reached node level inner) :
    ∃ height innerLo innerHi, depth = level + height ∧ Ordered height innerLo innerHi inner ∧
      ∀ key, Within innerLo innerHi key → Within lo hi key := by
  induction reached generalizing depth lo hi with
  | here node => exact ⟨depth, lo, hi, (Nat.zero_add _).symm, ordered, fun _ inside => inside⟩
  | @down node child inner level member further ih =>
      cases depth <;> cases node
      · cases member
      · exact ordered.elim
      · exact ordered.elim
      · obtain ⟨index, present⟩ := List.mem_iff_getElem?.mp member
        obtain ⟨covered, nested⟩ := Spaced.child ordered present
        obtain ⟨height, innerLo, innerHi, counted, held, inside⟩ := ih covered
        exact ⟨height, innerLo, innerHi, by omega, held, fun key within =>
          nested key (inside key within)⟩

/-- Every node strictly below a filled one is half full. -/
theorem Filled.reached {whole : Bool} {depth level : Nat} {node inner : BpNode}
    (filled : Filled whole depth node) (reached : Reached node (level + 1) inner) :
    ∃ height, depth = level + 1 + height ∧ Filled false height inner := by
  induction level generalizing whole depth node with
  | zero =>
      cases reached with
      | down member further =>
          cases further
          cases depth <;> cases node
          · cases member
          · exact filled.elim
          · cases member
          · exact ⟨_, Nat.add_comm _ _, filled.2.2.2 inner member⟩
  | succ level ih =>
      cases reached with
      | down member further =>
          cases depth <;> cases node
          · cases member
          · exact filled.elim
          · cases member
          · obtain ⟨height, counted, held⟩ := ih (filled.2.2.2 _ member) further
            exact ⟨height, by omega, held⟩

/-- Two readings of one node agree on its depth. -/
theorem Ordered.depth_eq {depth other : Nat} {lo hi : Option Int32} {whole : Bool} {node : BpNode}
    (ordered : Ordered depth lo hi node) (filled : Filled whole other node) : depth = other := by
  induction depth generalizing other lo hi whole node with
  | zero =>
      cases other <;> cases node
      · rfl
      · exact ordered.elim
      · exact filled.elim
      · exact ordered.elim
  | succ depth ih =>
      cases other <;> cases node
      · exact ordered.elim
      · exact filled.elim
      · exact filled.elim
      · have covered := (@Spaced.child _ _ _ _ _ ordered 0 _ rfl).1
        rw [ih covered (filled.2.2.2 _ List.mem_cons_self)]

/-- A row of children that each hold `least` entries. -/
theorem rowEntries_length {first : BpNode} {rest : List (Int32 × BpNode)} {least : Nat}
    (held : ∀ child ∈ (BpNode.internal first rest).children, least ≤ child.entries.length) :
    (rest.length + 1) * least ≤ (rowEntries first rest).length := by
  induction rest generalizing first with
  | nil => simpa [BpNode.children] using held
  | cons slot rest ih =>
      have head := held first List.mem_cons_self
      have tail := ih fun child member => held child (List.mem_cons_of_mem _ member)
      rw [rowEntries_cons, List.length_append, List.length_cons]
      calc (rest.length + 1 + 1) * least = least + (rest.length + 1) * least := by ring
        _ ≤ first.entries.length + (rowEntries slot.2 rest).length := Nat.add_le_add head tail

/-- A half full node of depth `d` holds at least `16 ^ (d + 1)` entries. -/
theorem Filled.entries {depth : Nat} {node : BpNode} (filled : Filled false depth node) :
    16 ^ (depth + 1) ≤ node.entries.length := by
  induction depth generalizing node with
  | zero =>
      cases node
      · rw [entries_leaf]
        exact filled.1 rfl
      · exact filled.elim
  | succ depth ih =>
      cases node with
      | leaf address entries next => exact filled.elim
      | internal first rest =>
          obtain ⟨_, least, _, inside⟩ := filled
          have sixteen : 16 ≤ rest.length + 1 := Nat.succ_le_succ (least rfl)
          rw [entries_internal]
          calc 16 ^ (depth + 1 + 1) = 16 * 16 ^ (depth + 1) := by ring
            _ ≤ (rest.length + 1) * 16 ^ (depth + 1) := Nat.mul_le_mul_right _ sixteen
            _ ≤ (rowEntries first rest).length :=
              rowEntries_length fun child member => ih (inside child member)

/-- The root of a whole tree of depth `d` has two half full children, or is a leaf. -/
theorem Filled.entries_whole {depth : Nat} {node : BpNode} (filled : Filled true depth node) :
    depth = 0 ∨ 2 * 16 ^ depth ≤ node.entries.length := by
  cases depth <;> cases node
  · exact .inl rfl
  · exact filled.elim
  · exact filled.elim
  case succ.internal depth first rest =>
    obtain ⟨some, _, _, inside⟩ := filled
    right
    rw [entries_internal]
    calc 2 * 16 ^ (depth + 1) ≤ (rest.length + 1) * 16 ^ (depth + 1) :=
          Nat.mul_le_mul_right _ (Nat.succ_le_succ some)
      _ ≤ (rowEntries first rest).length :=
        rowEntries_length fun child member => (inside child member).entries

/-- A search visits one node on every level. -/
theorem Filled.searchPath {whole : Bool} {depth : Nat} {node : BpNode}
    (filled : Filled whole depth node) (key : Int32) :
    (searchPath node key).length = depth + 1 := by
  induction depth generalizing whole node with
  | zero =>
      cases node
      · rw [Bptree.searchPath, List.length_singleton]
      · exact filled.elim
  | succ depth ih =>
      cases node with
      | leaf address entries next => exact filled.elim
      | internal first rest =>
          rw [Bptree.searchPath, List.length_cons,
            ih (filled.2.2.2 _ (childAt_mem_children first rest _))]

/-- What a node found `level` pointers below the root of a tree of depth `depth`
looks like. -/
structure NodeShape (depth level : Nat) (node : BpNode) : Prop where
  ascending : node.keys.Pairwise (· < ·)
  leaves : node.isLeaf = true ↔ level = depth
  most : node.keys.length ≤ 31
  leafLeast : level ≠ 0 → node.isLeaf = true → 16 ≤ node.keys.length
  internalLeast : level ≠ 0 → node.isLeaf = false → 15 ≤ node.keys.length
  rootLeast : node.isLeaf = false → 1 ≤ node.keys.length
  children : node.isLeaf = false → node.children.length = node.keys.length + 1
  bounds : ∀ index child, node.children[index]? = some child →
    ∀ further inner, Reached child further inner → ∀ key ∈ inner.keys,
      (∀ low, 0 < index → node.keys[index - 1]? = some low → low ≤ key) ∧
        ∀ high, node.keys[index]? = some high → key < high

/-- The keys below a child lie between its neighbouring separators. -/
theorem Ordered.bounds {depth : Nat} {lo hi : Option Int32} {node : BpNode}
    (ordered : Ordered depth lo hi node) {index : Nat} {child : BpNode}
    (present : node.children[index]? = some child) {further : Nat} {inner : BpNode}
    (reached : Reached child further inner) {key : Int32} (member : key ∈ inner.keys) :
    (∀ low, 0 < index → node.keys[index - 1]? = some low → low ≤ key) ∧
      ∀ high, node.keys[index]? = some high → key < high := by
  cases depth <;> cases node
  · cases present
  · exact ordered.elim
  · exact ordered.elim
  case succ.internal depth first rest =>
    obtain ⟨covered, _⟩ := Spaced.child ordered present
    obtain ⟨_, _, _, _, held, inside⟩ := covered.reached reached
    obtain ⟨lower, upper⟩ := inside key (held.keys.2 key member)
    constructor
    · intro low positive named
      obtain ⟨before, rfl⟩ := Nat.exists_eq_add_one_of_ne_zero positive.ne'
      exact lower low named
    · intro high named
      have above : (rest.map Prod.fst)[index]? = some high := named
      exact upper high (by rw [above]; rfl)

/-- The two invariants give the shape of every node. -/
theorem nodeShape_of_invariants {depth level : Nat} {lo hi : Option Int32} {root node : BpNode}
    (ordered : Ordered depth lo hi root) (filled : Filled true depth root)
    (reached : Reached root level node) : NodeShape depth level node := by
  obtain ⟨height, nodeLo, nodeHi, counted, held, _⟩ := ordered.reached reached
  have occupied : Filled true height node ∧ (level ≠ 0 → Filled false height node) := by
    cases level with
    | zero =>
        cases reached
        obtain rfl : depth = height := by omega
        exact ⟨filled, fun nonzero => absurd rfl nonzero⟩
    | succ level =>
        obtain ⟨other, recounted, part⟩ := filled.reached reached
        obtain rfl : height = other := by omega
        exact ⟨part.whole, fun _ => part⟩
  obtain ⟨atMost, inner⟩ := occupied
  cases height <;> cases node
  · exact {
      ascending := held.keys.1
      leaves := ⟨fun _ => counted.symm, fun _ => rfl⟩
      most := by simpa only [BpNode.keys, List.length_map, bptreeMaxKeys] using atMost.2
      leafLeast := fun below _ => by
        simpa only [BpNode.keys, List.length_map] using (inner below).1 rfl
      internalLeast := fun _ impossible => by cases impossible
      rootLeast := fun impossible => by cases impossible
      children := fun impossible => by cases impossible
      bounds := fun _ _ impossible => by cases impossible }
  · exact held.elim
  · exact held.elim
  · exact {
      ascending := held.keys.1
      leaves := ⟨(fun impossible => by cases impossible), fun same => by omega⟩
      most := by simpa only [BpNode.keys, List.length_map, bptreeMaxKeys] using atMost.2.2.1
      leafLeast := fun _ impossible => by cases impossible
      internalLeast := fun below _ => by
        simpa only [BpNode.keys, List.length_map] using (inner below).2.1 rfl
      rootLeast := fun _ => by simpa only [BpNode.keys, List.length_map] using atMost.1
      children := fun _ => by
        simp only [BpNode.children, BpNode.keys, List.length_cons, List.length_map]
      bounds := fun _ _ present _ _ further _ member => held.bounds present further member }

/-- **The tree is balanced.** While no allocation is refused, the tree built by
any sequence of insertions has all its leaves at one depth; every node has
ascending keys that separate its subtrees, does not overflow and, unless it is
the root, is half full. The size bounds the depth, and a search visits one node
on every level. -/
theorem insertAll_balanced (writes : List (Int32 × Nat)) (heap : Heap)
    (granted : (insertAll writes heap).2.1.refused = false) :
    ((insertAll writes heap).1.root = none → writes = []) ∧
      ∀ root ∈ (insertAll writes heap).1.root, ∃ depth,
        (∀ level node, Reached root level node → NodeShape depth level node) ∧
        (depth = 0 ∨ 2 * 16 ^ depth ≤ (insertAll writes heap).1.size) ∧
        ∀ key, (searchPath root key).length = depth + 1 := by
  obtain ⟨_, represents⟩ := insertAll_represents writes granted
  constructor
  · exact writes_of_no_root granted
  · intro root present
    obtain ⟨depth, filled⟩ := insertAll_filled writes granted root present
    obtain ⟨other, ordered⟩ := represents.ordered root present
    obtain rfl := ordered.depth_eq filled
    refine ⟨other, fun level node reached => nodeShape_of_invariants ordered filled reached, ?_,
      filled.searchPath⟩
    rw [represents.size, ← represents.held root present]
    exact filled.entries_whole

/-- Forty ascending keys: every search visits as many nodes as the tree has levels. -/
theorem insertAll_balanced_ascending :
    ∃ root depth,
      (insertAll ((List.range 40).map fun i => (Int32.ofNat i, i)) Heap.generous).1.root =
          some root ∧
        (∀ level node, Reached root level node → NodeShape depth level node) ∧
        ∀ key, (searchPath root key).length = depth + 1 := by
  obtain ⟨root, present⟩ : ∃ root,
      (insertAll ((List.range 40).map fun i => (Int32.ofNat i, i)) Heap.generous).1.root =
        some root := Option.isSome_iff_exists.mp (by decide +kernel)
  obtain ⟨depth, shapes, _, visits⟩ :=
    (insertAll_balanced _ Heap.generous (by decide +kernel)).2 root (Option.mem_def.mpr present)
  exact ⟨root, depth, present, shapes, visits⟩

end MiniDbms.Bptree
