import MiniDbms.Bptree.Balance
import MiniDbms.Bptree.NodeMemory

/-! # The B+ tree in memory

A subtree is stored in nodes of its own, which point to each other as the tree has it
(`MiniDbms.Bptree.Memory.Stored`). On a stored tree `node_insert` always has a result, which is
stored again and is the one of `MiniDbms.Bptree.nodeInsert`; it touches no other node that was
there before (`MiniDbms.Bptree.Memory.nodeInsert_simulates`).
-/

namespace MiniDbms.Bptree.Memory

open Foundation

/-- A subtree, the address of its root and the addresses of all its nodes. -/
structure Branch where
  node : BpNode
  address : Nat
  footprint : List Nat

/-- The nodes of the branch are in memory, each of them once. -/
inductive Stored (nodes : List Node) : Branch → Prop where
  | leaf {address : Nat} {entries : List (Int32 × Nat)} {next : Option Nat} {leaf : Node}
      (present : nodes[address]? = some leaf) (holds : HoldsEntries entries next leaf) :
      Stored nodes
        { node := .leaf address entries next, address := address, footprint := [address] }
  | internal {address : Nat} {first : BpNode} {rest : List (Int32 × BpNode)} {row : List Branch}
      {node : Node} (present : nodes[address]? = some node)
      (holds : HoldsRow (rest.map Prod.fst) (row.map Branch.address) node)
      (children : row.map Branch.node = first :: rest.map Prod.snd)
      (stored : ∀ branch ∈ row, Stored nodes branch)
      (apart : (address :: row.flatMap Branch.footprint).Nodup) :
      Stored nodes
        { node := .internal first rest
          address := address
          footprint := address :: row.flatMap Branch.footprint }

section Stored

variable {nodes others : List Node} {branch : Branch} {row : List Branch}

/-- Only the nodes of the branch matter. -/
theorem Stored.frame (stored : Stored nodes branch)
    (same : ∀ address ∈ branch.footprint, others[address]? = nodes[address]?) :
    Stored others branch := by
  induction stored with
  | leaf present holds =>
      exact .leaf ((same _ List.mem_cons_self).trans present) holds
  | @internal address first rest row node present holds children stored apart ih =>
      apply Stored.internal ((same _ List.mem_cons_self).trans present) holds children _ apart
      intro child member
      apply ih child member
      intro inner inside
      exact same inner (List.mem_cons_of_mem _ (List.mem_flatMap.mpr ⟨child, member, inside⟩))

/-- A stored branch uses no node twice. -/
theorem Stored.nodup (stored : Stored nodes branch) : branch.footprint.Nodup := by
  cases stored with
  | leaf present holds => exact List.nodup_singleton _
  | internal present holds children stored apart => exact apart

/-- A stored branch uses nodes that were created. -/
theorem Stored.lt_length (stored : Stored nodes branch) :
    ∀ address ∈ branch.footprint, address < nodes.length := by
  induction stored with
  | leaf present holds =>
      intro address member
      rw [List.mem_singleton.mp member]
      exact (List.getElem?_eq_some_iff.mp present).1
  | internal present holds children stored apart ih =>
      intro address member
      rcases List.mem_cons.mp member with rfl | inner
      · exact (List.getElem?_eq_some_iff.mp present).1
      · obtain ⟨child, inRow, inside⟩ := List.mem_flatMap.mp inner
        exact ih child inRow address inside

/-- Only the nodes of the branches of a row matter. -/
theorem frame_row (stored : ∀ branch ∈ row, Stored nodes branch)
    (same : ∀ address ∈ row.flatMap Branch.footprint, others[address]? = nodes[address]?) :
    ∀ branch ∈ row, Stored others branch := by
  intro branch member
  apply (stored branch member).frame
  intro address inside
  exact same address (List.mem_flatMap.mpr ⟨branch, member, inside⟩)

theorem lt_length_of_row (stored : ∀ branch ∈ row, Stored nodes branch) :
    ∀ address ∈ row.flatMap Branch.footprint, address < nodes.length := by
  intro address member
  obtain ⟨branch, inRow, inside⟩ := List.mem_flatMap.mp member
  exact (stored branch inRow).lt_length address inside

/-- A stored branch uses a node. -/
theorem Stored.footprint_pos (stored : Stored nodes branch) : 0 < branch.footprint.length := by
  cases stored with
  | leaf present holds => exact Nat.succ_pos _
  | internal present holds children stored apart => exact Nat.succ_pos _

/-- A branch has no more nodes than there are. -/
theorem Stored.length_le (stored : Stored nodes branch) :
    branch.footprint.length ≤ nodes.length := by
  have within : branch.footprint ⊆ List.range nodes.length := fun address member =>
    List.mem_range.mpr (stored.lt_length address member)
  have fewer := (List.subperm_of_subset stored.nodup within).length_le
  rwa [List.length_range] at fewer

end Stored

section Children

variable (first : BpNode) (rest : List (Int32 × BpNode)) {index : Nat}

/-- The child that is looked up is the one at its index. -/
theorem getElem?_childAt (inside : index ≤ rest.length) :
    (first :: rest.map Prod.snd)[index]? = some (childAt first rest index) := by
  induction rest generalizing first index with
  | nil =>
      obtain rfl : index = 0 := Nat.le_zero.mp inside
      rfl
  | cons slot rest ih =>
      cases index with
      | zero => rfl
      | succ index => exact ih slot.2 (Nat.le_of_succ_le_succ inside)

/-- Replacing a child replaces it in the row. -/
theorem children_setChild (inside : index ≤ rest.length) (child : BpNode) :
    (Bptree.setChild first rest index child).1 ::
        (Bptree.setChild first rest index child).2.map Prod.snd =
      (first :: rest.map Prod.snd).set index child := by
  induction rest generalizing first index with
  | nil =>
      obtain rfl : index = 0 := Nat.le_zero.mp inside
      rfl
  | cons slot rest ih =>
      cases index with
      | zero => rfl
      | succ index =>
          have later := ih slot.2 (Nat.le_of_succ_le_succ inside)
          simp only [Bptree.setChild, List.map_cons, List.set_cons_succ]
          rw [later]

/-- Replacing a child keeps the separators. -/
theorem keys_setChild (index : Nat) (child : BpNode) :
    (Bptree.setChild first rest index child).2.map Prod.fst = rest.map Prod.fst := by
  induction rest generalizing first index with
  | nil => rfl
  | cons slot rest ih =>
      cases index with
      | zero => rfl
      | succ index => simp only [Bptree.setChild, List.map_cons, ih slot.2 index]

/-- A list around one of its items. -/
theorem exists_around {Item : Type} {items : List Item} {item : Item} {index : Nat}
    (present : items[index]? = some item) :
    ∃ front back, items = front ++ item :: back ∧ front.length = index := by
  obtain ⟨inside, rfl⟩ := List.getElem?_eq_some_iff.mp present
  refine ⟨items.take index, items.drop (index + 1), ?_, List.length_take_of_le inside.le⟩
  rw [← List.drop_eq_getElem_cons inside, List.take_append_drop]

/-- An item put behind the middle one. -/
theorem insertIdx_around {Item : Type} (front back : List Item) (item new : Item) :
    (front ++ item :: back).insertIdx (front.length + 1) new = front ++ item :: new :: back := by
  induction front with
  | nil => rfl
  | cons other front ih =>
      rw [List.cons_append, List.length_cons, List.insertIdx_succ_cons, ih, List.cons_append]

theorem set_around {Item : Type} (front back : List Item) (item new : Item) :
    (front ++ item :: back).set front.length new = front ++ new :: back := by
  rw [List.set_append_right _ _ (Nat.le_refl _), Nat.sub_self, List.set_cons_zero]

end Children

/-- The supply of nodes that the trees are built from. -/
def Store.supply (store : Store) : NodeSupply :=
  { heap := store.heap, created := store.nodes.length }

theorem save_present {store : Store} {address : Nat} {old : Node}
    (present : store.nodes[address]? = some old) (node : Node) :
    store.save address node = some { store with nodes := store.nodes.set address node } :=
  if_pos (List.getElem?_eq_some_iff.mp present).1

theorem supply_set (store : Store) (address : Nat) (node : Node) :
    Store.supply { store with nodes := store.nodes.set address node } = store.supply := by
  simp only [Store.supply, List.length_set]

/-- A node is created in both or in none. -/
theorem nodeCreate_cases (isLeaf : Bool) (store : Store) :
    (∃ after, nodeCreate isLeaf store = (none, after) ∧ after.nodes = store.nodes ∧
      Bptree.nodeCreate store.supply = (none, after.supply)) ∨
    ∃ after, nodeCreate isLeaf store = (some store.nodes.length, after) ∧
      after.nodes = store.nodes ++ [Node.zeroed isLeaf] ∧
      Bptree.nodeCreate store.supply = (some store.nodes.length, after.supply) := by
  unfold nodeCreate Bptree.nodeCreate
  rcases answer : store.heap.request sizeofBpNode with ⟨_ | _, heap⟩
  · exact .inl ⟨_, rfl, rfl, by simp only [Store.supply, answer]⟩
  · refine .inr ⟨_, rfl, rfl, ?_⟩
    simp only [Store.supply, answer, List.length_append, List.length_singleton]

/-- What a step that works on the nodes of `footprint` leaves: `branches`, stored in those nodes
and in new ones, and all other nodes as they were. -/
structure Leaves (before : Store) (footprint : List Nat) (after : Store)
    (branches : List Branch) : Prop where
  stored : ∀ branch ∈ branches, Stored after.nodes branch
  apart : (branches.flatMap Branch.footprint).Nodup
  owned : ∀ address ∈ branches.flatMap Branch.footprint,
    address ∈ footprint ∨ before.nodes.length ≤ address
  grown : before.nodes.length ≤ after.nodes.length
  others : ∀ address < before.nodes.length, address ∉ footprint →
    after.nodes[address]? = before.nodes[address]?

/-- The branches that an insertion below `address` is to leave: the node, and the right half
where it was split. -/
inductive Matches (address : Nat) :
    InsertResult → BpNode → Bptree.InsertResult → List Branch → Prop where
  | whole (node : BpNode) (insertedNew : Bool) (footprint : List Nat) :
      Matches address { split := none, insertedNew := insertedNew } node
        { split := none, insertedNew := insertedNew }
        [{ node := node, address := address, footprint := footprint }]
  | split (node : BpNode) (insertedNew : Bool) (footprint : List Nat) (promoted : Int32)
      (right : Branch) :
      Matches address { split := some (promoted, right.address), insertedNew := insertedNew } node
        { split := some (promoted, right.node), insertedNew := insertedNew }
        [{ node := node, address := address, footprint := footprint }, right]

/-- The step in memory has a result, which is the one on trees. -/
def Simulates (before : Store) (address : Nat) (footprint : List Nat)
    (run : Option (InsertResult × Store)) (spec : BpNode × Bptree.InsertResult × NodeSupply) :
    Prop :=
  ∃ result after branches, run = some (result, after) ∧ spec.2.2 = after.supply ∧
    Matches address result spec.1 spec.2.1 branches ∧ Leaves before footprint after branches

/-- A step that leaves one branch in nodes that were there before. -/
theorem Leaves.single {before after : Store} {footprint : List Nat} {branch : Branch}
    (stored : Stored after.nodes branch) (owned : ∀ inner ∈ branch.footprint, inner ∈ footprint)
    (grown : before.nodes.length ≤ after.nodes.length)
    (others : ∀ address < before.nodes.length, address ∉ footprint →
      after.nodes[address]? = before.nodes[address]?) :
    Leaves before footprint after [branch] where
  stored := List.forall_mem_singleton.mpr stored
  apart := by rw [List.flatMap_singleton]; exact stored.nodup
  owned := by
    intro inner inside
    rw [List.flatMap_singleton] at inside
    exact .inl (owned inner inside)
  grown := grown
  others := others

/-- A step that writes one node which is the root of the branch that is left. -/
theorem Leaves.rewrite {before : Store} {address : Nat} {footprint : List Nat} {node : Node}
    {branch : Branch} (member : address ∈ footprint)
    (stored : Stored (before.nodes.set address node) branch)
    (owned : ∀ inner ∈ branch.footprint, inner ∈ footprint) :
    Leaves before footprint { before with nodes := before.nodes.set address node } [branch] := by
  apply Leaves.single stored owned
  · rw [List.length_set]
  · intro other _ outside
    apply List.getElem?_set_ne
    intro same
    exact outside (same ▸ member)

/-- A created node is written, and an old one. -/
structure Halved (before after : List Node) (address : Nat) (left right : Node) : Prop where
  left : after[address]? = some left
  right : after[before.length]? = some right
  length : after.length = before.length + 1
  others : ∀ other < before.length, other ≠ address → after[other]? = before[other]?

/-- Both halves of a node that was split are saved. -/
theorem save_halves {before created : Store} {isLeaf : Bool} {address : Nat}
    (newNodes : created.nodes = before.nodes ++ [Node.zeroed isLeaf])
    (bound : address < before.nodes.length) (left right : Node) :
    ∃ middle after, created.save before.nodes.length right = some middle ∧
      middle.save address left = some after ∧ after.heap = created.heap ∧
      Halved before.nodes after.nodes address left right := by
  have length : created.nodes.length = before.nodes.length + 1 := by
    rw [newNodes, List.length_append, List.length_singleton]
  refine ⟨{ created with nodes := created.nodes.set before.nodes.length right },
    { created with
      nodes := (created.nodes.set before.nodes.length right).set address left },
    if_pos (by omega), if_pos (by rw [List.length_set]; omega), rfl, ?_⟩
  exact {
    left := List.getElem?_set_self (by rw [List.length_set]; omega)
    right := by
      rw [List.getElem?_set_ne (by omega), List.getElem?_set_self (by omega)]
    length := by rw [List.length_set, List.length_set, length]
    others := by
      intro other below different
      rw [List.getElem?_set_ne different.symm, List.getElem?_set_ne (by omega), newNodes,
        List.getElem?_append_left below] }

/-- Branches without the old node are as they were. -/
theorem Halved.keeps {before after : List Node} {address : Nat} {left right : Node}
    {row : List Branch} (halved : Halved before after address left right)
    (stored : ∀ branch ∈ row, Stored before branch)
    (apart : (address :: row.flatMap Branch.footprint).Nodup) :
    ∀ branch ∈ row, Stored after branch := by
  apply frame_row stored
  intro inner member
  apply halved.others inner (lt_length_of_row stored inner member)
  intro same
  exact (List.nodup_cons.mp apart).1 (same ▸ member)

theorem Halved.supply {before created after : Store} {isLeaf : Bool} {address : Nat}
    {left right : Node} (halved : Halved before.nodes after.nodes address left right)
    (newNodes : created.nodes = before.nodes ++ [Node.zeroed isLeaf])
    (sameHeap : after.heap = created.heap) : created.supply = after.supply := by
  rw [Store.supply, Store.supply, sameHeap, halved.length, newNodes, List.length_append,
    List.length_singleton]

/-- The halves take the place of the node that was split, apart from everything else. -/
theorem Leaves.halves {before after : Store} {address : Nat} {footprint : List Nat}
    {left right : Node} {leftBranch rightBranch : Branch}
    (halved : Halved before.nodes after.nodes address left right) (member : address ∈ footprint)
    (leftStored : Stored after.nodes leftBranch) (rightStored : Stored after.nodes rightBranch)
    (apart : (leftBranch.footprint ++ rightBranch.footprint).Nodup)
    (owned : ∀ inner ∈ leftBranch.footprint ++ rightBranch.footprint,
      inner ∈ footprint ∨ before.nodes.length ≤ inner) :
    Leaves before footprint after [leftBranch, rightBranch] where
  stored := List.forall_mem_cons.mpr ⟨leftStored, List.forall_mem_singleton.mpr rightStored⟩
  apart := by rwa [List.flatMap_cons, List.flatMap_singleton]
  owned := by rwa [List.flatMap_cons, List.flatMap_singleton]
  grown := by rw [halved.length]; omega
  others := by
    intro other below outside
    apply halved.others other below
    rintro rfl
    exact outside member

/-- A step that changed no node. -/
theorem Leaves.unchanged {before after : Store} {footprint : List Nat} {branch : Branch}
    (same : after.nodes = before.nodes) (stored : Stored before.nodes branch)
    (owned : ∀ inner ∈ branch.footprint, inner ∈ footprint) :
    Leaves before footprint after [branch] := by
  apply Leaves.single (same ▸ stored) owned
  · rw [same]
  · intro other _ _
    rw [same]

/-- A full leaf is split in memory. -/
theorem leafSplit_simulates {store : Store} {address : Nat} {entries : List (Int32 × Nat)}
    {next : Option Nat} {leaf : Node} {temp : LeafTemp} {key : Int32} {value : Nat}
    (present : store.nodes[address]? = some leaf) (holds : HoldsEntries entries next leaf)
    (absent : ¬ (entries[Bptree.leafFindPosition key entries]?).any (·.1 == key) = true)
    (full : entries.length = bptreeMaxKeys)
    (heldKeys : temp.keys.Holds
      ((entries.insertIdx (Bptree.leafFindPosition key entries) (key, value)).map Prod.fst))
    (heldValues : temp.values.Holds
      ((entries.insertIdx (Bptree.leafFindPosition key entries) (key, value)).map Prod.snd)) :
    Simulates store address [address] (leafSplit store address leaf temp)
      (Bptree.leafInsert address entries next key value store.supply) := by
  have bound : address < store.nodes.length := (List.getElem?_eq_some_iff.mp present).1
  have wide := List.length_insertIdx_of_le_length (leafFindPosition_le key entries) (key, value)
  have limit : bptreeMaxKeys = 31 := rfl
  simp only [Bptree.leafInsert, if_neg absent, full, Nat.lt_irrefl, ↓reduceIte]
  generalize entries.insertIdx (Bptree.leafFindPosition key entries) (key, value) = temp' at *
  unfold leafSplit
  rcases nodeCreate_cases true store with
    ⟨after, ran, same, spec⟩ | ⟨created, ran, newNodes, spec⟩ <;> rw [ran, spec]
  · exact ⟨_, _, _, rfl, rfl, .whole _ _ _,
      .unchanged same (.leaf present holds) fun _ member => member⟩
  · obtain ⟨left, ranLeft, leftHeld⟩ :=
      holds.half heldKeys heldValues 0 16 (by omega) (by omega)
    obtain ⟨right, ranRight, rightHeld⟩ :=
      holdsEntries_zeroed.half heldKeys heldValues 16 16 (by omega) (by omega)
    have whole : (temp'.drop 16).take 16 = temp'.drop 16 :=
      List.take_of_length_le (by rw [List.length_drop]; omega)
    rw [List.drop_zero] at leftHeld
    rw [whole] at rightHeld
    have loaded : created.load store.nodes.length = some (Node.zeroed true) := by
      rw [Store.load, newNodes, List.getElem?_concat_length]
    obtain ⟨middle, after, first, second, sameHeap, halved⟩ := save_halves newNodes bound
      { left with next := some store.nodes.length } { right with next := left.next }
    obtain ⟨promoted, behind, split⟩ := List.exists_cons_of_length_pos (l := temp'.drop 16)
      (by rw [List.length_drop]; omega)
    have readPromoted : right.key 0 = some promoted.1 := rightHeld.key (by rw [split]; rfl)
    refine ⟨{ split := some (promoted.1, store.nodes.length), insertedNew := true }, after, _,
      ?_, halved.supply newNodes sameHeap, ?_, .halves halved List.mem_cons_self
        (.leaf halved.left { leftHeld with next := rfl })
        (.leaf halved.right { rightHeld with next := leftHeld.next }) ?_ ?_⟩
    · simp only [ranLeft, loaded, ranRight, first, second, readPromoted, Option.bind_eq_bind,
        Option.bind_some, Nat.reduceAdd, Nat.reduceDiv, Nat.reduceSub, bptreeMaxKeys]
      rfl
    · simp only [Nat.reduceAdd, Nat.reduceDiv, bptreeMaxKeys]
      rw [split]
      exact .split _ _ _ _ { node := _, address := store.nodes.length, footprint := _ }
    · exact List.nodup_cons.mpr
        ⟨fun same => Nat.ne_of_lt bound (List.mem_singleton.mp same), List.nodup_singleton _⟩
    · intro inner member
      rcases List.mem_cons.mp member with rfl | new
      · exact .inl List.mem_cons_self
      · exact .inr (List.mem_singleton.mp new).ge

/-- `leaf_insert` in memory. -/
theorem leafInsert_simulates {store : Store} {address : Nat} {entries : List (Int32 × Nat)}
    {next : Option Nat} {leaf : Node} (present : store.nodes[address]? = some leaf)
    (holds : HoldsEntries entries next leaf) (key : Int32) (value : Nat) :
    Simulates store address [address] (leafInsert store address key value)
      (Bptree.leafInsert address entries next key value store.supply) := by
  have inside := leafFindPosition_le key entries
  have loaded : store.load address = some leaf := present
  have bound : address < store.nodes.length := (List.getElem?_eq_some_iff.mp present).1
  have written : ∀ {after : Node} {changed : List (Int32 × Nat)}, HoldsEntries changed next after →
      Leaves store [address] { store with nodes := store.nodes.set address after }
        [{ node := .leaf address changed next, address := address, footprint := [address] }] := by
    intro after changed held
    apply Leaves.rewrite List.mem_cons_self
    · exact .leaf (by rw [List.getElem?_set_self bound]) held
    · exact fun _ member => member
  simp only [leafInsert, loaded, holds.leafFindPosition, holds.leafHas, Option.bind_eq_bind,
    Option.bind_some]
  split
  · next found =>
      obtain ⟨after, ran, held⟩ := holds.rewrite found value
      rw [ran, Option.bind_some, save_present present]
      simp only [Bptree.leafInsert, if_pos found]
      exact ⟨_, _, _, rfl, (supply_set _ _ _).symm, .whole _ _ _, written held⟩
  · next absent =>
      rw [holds.count]
      split
      · next room =>
          obtain ⟨after, ran, held⟩ := holds.place inside room key value
          rw [ran, Option.bind_some, save_present present]
          simp only [Bptree.leafInsert, if_neg absent, if_pos room]
          exact ⟨_, _, _, rfl, (supply_set _ _ _).symm, .whole _ _ _, written held⟩
      · next most =>
          have full : entries.length = bptreeMaxKeys :=
            Nat.le_antisymm holds.length_le (Nat.not_lt.mp most)
          obtain ⟨temp, ran, heldKeys, heldValues⟩ := holds.temp inside full key value
          rw [ran, Option.bind_some]
          exact leafSplit_simulates present holds absent full heldKeys heldValues

/-- The children of a node one of which, `left`, was just split from `right`. -/
structure SplitRow (nodes : List Node) (address : Nat) (first : BpNode)
    (rest : List (Int32 × BpNode)) (front : List Branch) (left right : Branch)
    (back : List Branch) : Prop where
  children : (front ++ left :: back).map Branch.node = first :: rest.map Prod.snd
  stored : ∀ branch ∈ front ++ left :: right :: back, Stored nodes branch
  apart : (address :: (front ++ left :: right :: back).flatMap Branch.footprint).Nodup

section SplitRow

variable {nodes : List Node} {address : Nat} {first : BpNode} {rest : List (Int32 × BpNode)}
  {front back : List Branch} {left right : Branch}

/-- The row around the split has the other children. -/
theorem SplitRow.length (row : SplitRow nodes address first rest front left right back) :
    front.length + back.length = rest.length := by
  have counted := congrArg List.length row.children
  simp only [List.length_map, List.length_append, List.length_cons] at counted
  omega

theorem SplitRow.addresses (front back : List Branch) (left right : Branch) :
    ((front ++ left :: back).map Branch.address).insertIdx (front.length + 1) right.address =
      (front ++ left :: right :: back).map Branch.address := by
  rw [← List.map_insertIdx, insertIdx_around]

/-- The children with the right half are those that `absorbSplit` makes. -/
theorem SplitRow.wide (row : SplitRow nodes address first rest front left right back)
    (promoted : Int32) :
    (front ++ left :: right :: back).map Branch.node =
      first :: (rest.insertIdx front.length (promoted, right.node)).map Prod.snd := by
  rw [← insertIdx_around, List.map_insertIdx, row.children, List.map_insertIdx,
    List.insertIdx_succ_cons]

/-- The children without the right half. -/
theorem SplitRow.sublist (front back : List Branch) (left right : Branch) :
    (front ++ left :: back).Sublist (front ++ left :: right :: back) :=
  (((List.sublist_cons_self right back).cons_cons left).append_left front)

end SplitRow

/-- The nodes of a parent and of a new one that share a row. -/
theorem halves_perm (address created : Nat) (row : List Branch) (count : Nat) :
    ((address :: (row.take count).flatMap Branch.footprint) ++
        (created :: (row.drop count).flatMap Branch.footprint)).Perm
      (created :: address :: row.flatMap Branch.footprint) := by
  apply List.perm_middle.trans
  rw [List.cons_append, ← List.flatMap_append, List.take_append_drop]

/-- The halves share no node. -/
theorem halves_nodup {nodes : List Node} {address : Nat} {row : List Branch} (count : Nat)
    (bound : address < nodes.length) (stored : ∀ branch ∈ row, Stored nodes branch)
    (apart : (address :: row.flatMap Branch.footprint).Nodup) :
    ((address :: (row.take count).flatMap Branch.footprint) ++
      (nodes.length :: (row.drop count).flatMap Branch.footprint)).Nodup := by
  apply (halves_perm address nodes.length row count).nodup_iff.mpr
  refine List.nodup_cons.mpr ⟨fun member => ?_, apart⟩
  rcases List.mem_cons.mp member with same | inner
  · exact Nat.ne_of_lt bound same.symm
  · exact Nat.lt_irrefl _ (lt_length_of_row stored _ inner)

/-- A full internal node is split in memory. -/
theorem nodeSplit_simulates {store : Store} {address : Nat} {first : BpNode}
    {rest : List (Int32 × BpNode)} {front back : List Branch} {left right : Branch} {node : Node}
    {tempKeys : Temp Int32} {tempChildren : Temp (Option Nat)} {promoted : Int32}
    (present : store.nodes[address]? = some node)
    (holds : HoldsRow (rest.map Prod.fst) ((front ++ left :: back).map Branch.address) node)
    (row : SplitRow store.nodes address first rest front left right back)
    (full : rest.length = bptreeMaxKeys)
    (heldKeys : tempKeys.items.Holds
      ((rest.insertIdx front.length (promoted, right.node)).map Prod.fst))
    (heldChildren : tempChildren.items.Holds
      (((front ++ left :: right :: back).map Branch.address).map some)) (insertedNew : Bool) :
    Simulates store address
      (address :: (front ++ left :: right :: back).flatMap Branch.footprint)
      (nodeSplit store address node tempKeys tempChildren insertedNew)
      (Bptree.absorbSplit first rest front.length promoted right.node insertedNew
        store.supply) := by
  have bound : address < store.nodes.length := (List.getElem?_eq_some_iff.mp present).1
  have wide := row.wide promoted
  have inside : front.length ≤ rest.length := by
    have counted := row.length
    omega
  have grown := List.length_insertIdx_of_le_length inside (promoted, right.node)
  have widths := congrArg List.length wide
  simp only [Bptree.absorbSplit, full, Nat.lt_irrefl, ↓reduceIte]
  unfold nodeSplit
  rcases nodeCreate_cases false store with
    ⟨after, ran, same, spec⟩ | ⟨created, ran, newNodes, spec⟩ <;> rw [ran, spec]
  · have fewer := (SplitRow.sublist front back left right).flatMap Branch.footprint
    refine ⟨_, _, _, rfl, rfl, .whole _ _ _, .unchanged same (.internal present holds row.children
      (fun branch member => row.stored branch ((SplitRow.sublist _ _ _ _).subset member))
      (row.apart.sublist (fewer.cons_cons address))) ?_⟩
    exact (fewer.cons_cons address).subset
  · have stored := row.stored
    have distinct := row.apart
    generalize front ++ left :: right :: back = wideRow at *
    generalize rest.insertIdx front.length (promoted, right.node) = temp at *
    have limit : bptreeMaxKeys = 31 := rfl
    rw [List.length_cons, List.length_map, List.length_map] at widths
    have keysLength : (temp.map Prod.fst).length = 32 := by rw [List.length_map]; omega
    have childrenLength : (wideRow.map Branch.address).length = 33 := by rw [List.length_map]; omega
    obtain ⟨leftNode, ranLeft, leftHeld⟩ :=
      nodeHalf_holds holds.isLeaf heldKeys heldChildren 0 16 (by omega) (by omega) (by omega)
    obtain ⟨cleared, ranClear, clearedHeld⟩ := leftHeld.clear 17
      (by rw [List.length_take, List.length_drop]; omega) (by omega)
    obtain ⟨rightNode, ranRight, rightHeld⟩ := @nodeHalf_holds (Node.zeroed false) _ _ _ _ rfl
      heldKeys heldChildren 17 15 (by omega) (by omega) (by omega)
    have loaded : created.load store.nodes.length = some (Node.zeroed false) := by
      rw [Store.load, newNodes, List.getElem?_concat_length]
    obtain ⟨middle, after, first', second, sameHeap, halved⟩ :=
      save_halves newNodes bound cleared rightNode
    obtain ⟨⟨middleKey, middleChild⟩, behind, split⟩ :=
      List.exists_cons_of_length_pos (l := temp.drop 16) (by rw [List.length_drop]; omega)
    have readMiddle : tempKeys.items.read 16 = some middleKey := by
      apply heldKeys.read
      have here : temp[16]? = (temp.drop 16)[0]? := by rw [List.getElem?_drop]
      rw [List.getElem?_map, here, split]
      rfl
    have others : temp.drop 17 = behind := by
      rw [← List.drop_drop (i := 1) (j := 16), split]
      rfl
    have kept := halved.keeps stored distinct
    have apart := halves_nodup 17 bound stored distinct
    obtain ⟨leftApart, rightApart, _⟩ := List.nodup_append.mp apart
    have leftStored : Stored after.nodes
        { node := .internal first (temp.take 16)
          address := address
          footprint := address :: (wideRow.take 17).flatMap Branch.footprint } := by
      apply Stored.internal halved.left _ _ _ leftApart
      · rw [List.map_take, List.map_take]
        exact clearedHeld
      · rw [List.map_take, wide, List.take_succ_cons, List.map_take]
      · exact fun branch member => kept branch (List.mem_of_mem_take member)
    have rightStored : Stored after.nodes
        { node := .internal middleChild behind
          address := store.nodes.length
          footprint := store.nodes.length :: (wideRow.drop 17).flatMap Branch.footprint } := by
      apply Stored.internal halved.right _ _ _ rightApart
      · rw [← others, List.map_drop, List.map_drop]
        rw [List.take_of_length_le (by rw [List.length_drop]; omega),
          List.take_of_length_le (by rw [List.length_drop]; omega)] at rightHeld
        exact rightHeld
      · rw [List.map_drop, wide, List.drop_succ_cons, ← List.map_drop, split]
        rfl
      · exact fun branch member => kept branch (List.mem_of_mem_drop member)
    refine ⟨{ split := some (middleKey, store.nodes.length), insertedNew := insertedNew }, after, _,
      ?_, halved.supply newNodes sameHeap, ?_,
      .halves halved List.mem_cons_self leftStored rightStored apart ?_⟩
    · have mid : (bptreeMaxKeys + 1) / 2 = 16 := rfl
      have rightKeys : bptreeMaxKeys + 1 - 16 - 1 = 15 := rfl
      simp only [mid, rightKeys, ranLeft, ranClear, loaded, ranRight, first', second, readMiddle,
        Option.bind_eq_bind, Option.bind_some, Nat.reduceAdd]
      rfl
    · simp only [Nat.reduceAdd, Nat.reduceDiv, bptreeMaxKeys]
      rw [split, others]
      exact .split _ _ _ _ { node := _, address := store.nodes.length, footprint := _ }
    · intro inner member
      rcases List.mem_cons.mp ((halves_perm _ _ _ _).mem_iff.mp member) with rfl | old
      · exact .inr (Nat.le_refl _)
      · exact .inl old

/-- The part of `node_insert` after the child was split, in memory. -/
theorem absorbSplit_simulates {store : Store} {address : Nat} {first : BpNode}
    {rest : List (Int32 × BpNode)} {front back : List Branch} {left right : Branch} {node : Node}
    (present : store.nodes[address]? = some node)
    (holds : HoldsRow (rest.map Prod.fst) ((front ++ left :: back).map Branch.address) node)
    (row : SplitRow store.nodes address first rest front left right back) (promoted : Int32)
    (insertedNew : Bool) :
    Simulates store address
      (address :: (front ++ left :: right :: back).flatMap Branch.footprint)
      (absorbSplit store address front.length promoted right.address insertedNew)
      (Bptree.absorbSplit first rest front.length promoted right.node insertedNew
        store.supply) := by
  have bound : address < store.nodes.length := (List.getElem?_eq_some_iff.mp present).1
  have loaded : store.load address = some node := present
  have counted := row.length
  have inside : front.length ≤ (rest.map Prod.fst).length := by rw [List.length_map]; omega
  have arity : ((front ++ left :: back).map Branch.address).length =
      (rest.map Prod.fst).length + 1 := by
    simp only [List.length_map, List.length_append, List.length_cons]
    omega
  have numKeys : node.numKeys = rest.length := by rw [holds.count, List.length_map]
  simp only [absorbSplit, loaded, numKeys, Option.bind_eq_bind, Option.bind_some]
  split
  · next room =>
      obtain ⟨after, ran, held⟩ :=
        holds.place arity inside (by rwa [List.length_map]) promoted right.address
      rw [SplitRow.addresses, ← List.map_insertIdx Prod.fst rest _ (promoted, right.node)] at held
      simp only [Bptree.absorbSplit, if_pos room]
      rw [ran, Option.bind_some, save_present present]
      refine ⟨_, _, _, rfl, (supply_set _ _ _).symm, .whole _ _ _,
        .rewrite List.mem_cons_self (.internal (List.getElem?_set_self bound) held
          (row.wide promoted) ?_ row.apart) fun _ member => member⟩
      apply frame_row row.stored
      intro inner member
      apply List.getElem?_set_ne
      intro same
      exact (List.nodup_cons.mp row.apart).1 (same ▸ member)
  · next most =>
      have full : rest.length = bptreeMaxKeys := by
        have fits := holds.length_le
        rw [List.length_map] at fits
        exact Nat.le_antisymm fits (Nat.not_lt.mp most)
      obtain ⟨tempKeys, ranKeys, heldKeys⟩ := nodeTemp_holds
        (fun _ _ stored => holds.key stored) inside (by rw [List.length_map, full]) promoted
      have place : front.length + 1 ≤
          (((front ++ left :: back).map Branch.address).map some).length := by
        rw [List.length_map, arity]
        exact Nat.succ_le_succ inside
      obtain ⟨tempChildren, ranChildren, heldChildren⟩ := nodeTemp_holds
        (fun _ _ stored => holds.child arity stored) place
        (by rw [List.length_map, arity, List.length_map, full]) (some right.address)
      rw [← List.map_insertIdx Prod.fst rest _ (promoted, right.node)] at heldKeys
      rw [← List.map_insertIdx, SplitRow.addresses] at heldChildren
      rw [ranKeys, Option.bind_some, ranChildren, Option.bind_some]
      exact nodeSplit_simulates present holds row full heldKeys heldChildren insertedNew

/-- A step after another. -/
theorem Simulates.after {before middle : Store} {address : Nat} {inner footprint owned : List Nat}
    {branches : List Branch} {run : Option (InsertResult × Store)}
    {spec : BpNode × Bptree.InsertResult × NodeSupply} (first : Leaves before inner middle branches)
    (part : inner ⊆ footprint) (second : Simulates middle address owned run spec)
    (within : ∀ other ∈ owned, other ∈ footprint ∨ before.nodes.length ≤ other) :
    Simulates before address footprint run spec := by
  obtain ⟨result, after, left, ran, supply, matched, leaves⟩ := second
  refine ⟨result, after, left, ran, supply, matched, {
    stored := leaves.stored
    apart := leaves.apart
    owned := ?_
    grown := first.grown.trans leaves.grown
    others := ?_ }⟩
  · intro other member
    rcases leaves.owned other member with old | new
    · exact within other old
    · exact .inr (first.grown.trans new)
  · intro other below outside
    have untouched : other ∉ owned := by
      intro member
      rcases within other member with inside | new
      · exact outside inside
      · exact Nat.not_lt.mpr new below
    rw [leaves.others other (Nat.lt_of_lt_of_le below first.grown) untouched,
      first.others other below fun member => outside (part member)]

/-- The nodes of the branches in the middle of a row, and the others. -/
theorem footprint_perm (address : Nat) (front middle back : List Branch) :
    (address :: (front ++ middle ++ back).flatMap Branch.footprint).Perm
      (middle.flatMap Branch.footprint ++
        address :: (front ++ back).flatMap Branch.footprint) := by
  have sides : (front ++ (middle ++ back)).Perm (middle ++ (front ++ back)) :=
    List.perm_append_comm_assoc _ _ _
  rw [List.append_assoc]
  apply ((sides.flatMap_right Branch.footprint).cons address).trans
  rw [List.flatMap_append]
  exact List.perm_middle.symm

/-- Putting branches in the place of one keeps the nodes apart. -/
theorem nodup_replace {address created : Nat} {front back branches : List Branch} {branch : Branch}
    (apart : (address :: (front ++ branch :: back).flatMap Branch.footprint).Nodup)
    (below : ∀ other ∈ address :: (front ++ branch :: back).flatMap Branch.footprint,
      other < created)
    (inner : (branches.flatMap Branch.footprint).Nodup)
    (owned : ∀ other ∈ branches.flatMap Branch.footprint,
      other ∈ branch.footprint ∨ created ≤ other) :
    (address :: (front ++ branches ++ back).flatMap Branch.footprint).Nodup := by
  have before := footprint_perm address front [branch] back
  rw [List.flatMap_singleton, List.append_assoc, List.singleton_append] at before
  obtain ⟨_, others, different⟩ := List.nodup_append.mp (before.nodup_iff.mp apart)
  apply (footprint_perm address front branches back).nodup_iff.mpr
  refine List.nodup_append.mpr ⟨inner, others, ?_⟩
  rintro other member _ outside rfl
  rcases owned other member with old | new
  · exact different other old other outside rfl
  · have small := below other (before.mem_iff.mpr (List.mem_append_right _ outside))
    exact Nat.not_lt.mpr new small

/-- What an insertion below a child leaves of its parent. -/
theorem Stored.replaceChild {before after : Store} {address : Nat}
    {front back branches : List Branch} {child : Branch} {node : Node}
    (present : before.nodes[address]? = some node)
    (stored : ∀ branch ∈ front ++ child :: back, Stored before.nodes branch)
    (apart : (address :: (front ++ child :: back).flatMap Branch.footprint).Nodup)
    (leaves : Leaves before child.footprint after branches) :
    after.nodes[address]? = some node ∧
      (∀ branch ∈ front ++ branches ++ back, Stored after.nodes branch) ∧
      (address :: (front ++ branches ++ back).flatMap Branch.footprint).Nodup ∧
      ∀ other ∈ address :: (front ++ branches ++ back).flatMap Branch.footprint,
        other ∈ address :: (front ++ child :: back).flatMap Branch.footprint ∨
          before.nodes.length ≤ other := by
  have below : ∀ other ∈ address :: (front ++ child :: back).flatMap Branch.footprint,
      other < before.nodes.length := by
    intro other member
    rcases List.mem_cons.mp member with rfl | inner
    · exact (List.getElem?_eq_some_iff.mp present).1
    · exact lt_length_of_row stored other inner
  have perm := footprint_perm address front [child] back
  rw [List.flatMap_singleton, List.append_assoc, List.singleton_append] at perm
  obtain ⟨_, _, different⟩ := List.nodup_append.mp (perm.nodup_iff.mp apart)
  -- What is not below the child is as it was.
  have untouched : ∀ other ∈ address :: (front ++ back).flatMap Branch.footprint,
      after.nodes[other]? = before.nodes[other]? := by
    intro other member
    apply leaves.others other (below other (perm.mem_iff.mpr (List.mem_append_right _ member)))
    exact fun inside => different other inside other member rfl
  have sides : ∀ branch ∈ front ++ back, Stored after.nodes branch := by
    have part := (List.sublist_cons_self child back).append_left front
    apply frame_row fun branch member => stored branch (part.subset member)
    intro inner member
    exact untouched inner (List.mem_cons_of_mem _ member)
  refine ⟨(untouched _ List.mem_cons_self).trans present, fun branch member => ?_,
    nodup_replace apart below leaves.apart leaves.owned, fun other member => ?_⟩
  · rcases List.mem_append.mp member with early | right
    · rcases List.mem_append.mp early with left | new
      · exact sides branch (List.mem_append_left _ left)
      · exact leaves.stored branch new
    · exact sides branch (List.mem_append_right _ right)
  · rcases List.mem_append.mp ((footprint_perm _ _ _ _).mem_iff.mp member) with new | old
    · exact (leaves.owned other new).imp_left fun inside =>
        perm.mem_iff.mpr (List.mem_append_left _ inside)
    · exact .inl (perm.mem_iff.mpr (List.mem_append_right _ old))

/-- The child that a descent enters. -/
theorem exists_child {first : BpNode} {rest : List (Int32 × BpNode)} {row : List Branch}
    {node : Node} (holds : HoldsRow (rest.map Prod.fst) (row.map Branch.address) node)
    (children : row.map Branch.node = first :: rest.map Prod.snd) (key : Int32) :
    ∃ front child back, row = front ++ child :: back ∧
      Bptree.childIndexForKey key rest = front.length ∧
      child.node = childAt first rest front.length ∧
      node.child front.length = some (some child.address) ∧
      child.footprint.Sublist (row.flatMap Branch.footprint) := by
  have named := getElem?_childAt first rest (childIndexForKey_le key rest)
  rw [← children, List.getElem?_map] at named
  obtain ⟨child, inRow, same⟩ := Option.map_eq_some_iff.mp named
  obtain ⟨front, back, rfl, index⟩ := exists_around inRow
  refine ⟨front, child, back, rfl, index.symm, index ▸ same, ?_, ?_⟩
  · have arity : ((front ++ child :: back).map Branch.address).length =
        (rest.map Prod.fst).length + 1 := by
      have counted := congrArg List.length children
      rw [List.length_map, List.length_cons, List.length_map] at counted
      rw [List.length_map, List.length_map, counted]
    apply holds.child arity
    rw [List.getElem?_map, List.getElem?_map, index, inRow]
    rfl
  · rw [List.flatMap_append, List.flatMap_cons]
    exact (List.sublist_append_left _ _).trans (List.sublist_append_right _ _)

/-- **`node_insert` in memory.** On a stored tree it has a result, which is that of
`MiniDbms.Bptree.nodeInsert` and is stored again. The induction is on the levels that are left. -/
theorem nodeInsert_simulates (key : Int32) (value : Nat) {fuel : Nat} {store : Store}
    {branch : Branch} (stored : Stored store.nodes branch)
    (enough : branch.footprint.length ≤ fuel) :
    Simulates store branch.address branch.footprint
      (nodeInsert key value fuel store branch.address)
      (Bptree.nodeInsert branch.node key value store.supply) := by
  induction fuel generalizing store branch with
  | zero => exact absurd enough (Nat.not_le.mpr stored.footprint_pos)
  | succ fuel ih =>
      cases stored with
      | @leaf address entries next leaf present holds =>
          have loaded : store.load address = some leaf := present
          rw [nodeInsert, Bptree.nodeInsert, loaded]
          simp only [holds.isLeaf, Option.bind_eq_bind, Option.bind_some, ↓reduceIte]
          exact leafInsert_simulates present holds key value
      | @internal address first rest row node present holds children stored apart =>
          have loaded : store.load address = some node := present
          have inside := childIndexForKey_le key rest
          have counted := holds.childIndexForKey key
          obtain ⟨front, child, back, rfl, index, same, pointer, part⟩ :=
            exists_child holds children key
          obtain ⟨result, after, branches, ran, supply, matched, leaves⟩ :=
            ih (stored child (List.mem_append_right _ List.mem_cons_self))
              (part.length_le.trans (Nat.le_of_succ_le_succ enough))
          obtain ⟨kept, allStored, allApart, owned⟩ :=
            Stored.replaceChild present stored apart leaves
          rw [index] at inside counted
          rw [nodeInsert, Bptree.nodeInsert, loaded, index, ← same]
          simp only [holds.isLeaf, counted, pointer, ran, Option.bind_eq_bind, Option.bind_some,
            Bool.false_eq_true, ↓reduceIte]
          rcases spec : Bptree.nodeInsert child.node key value store.supply with
            ⟨childNode, childResult, childSupply⟩
          rw [spec] at supply matched
          obtain rfl : childSupply = after.supply := supply
          have newChildren := children_setChild first rest inside childNode
          have replaced := set_around (front.map Branch.node) (back.map Branch.node) child.node
            childNode
          rw [List.length_map] at replaced
          rw [← children, List.map_append, List.map_cons, replaced] at newChildren
          rw [← keys_setChild first rest front.length childNode, List.map_append] at holds
          have inner : child.footprint ⊆
              address :: (front ++ child :: back).flatMap Branch.footprint :=
            fun _ member => List.mem_cons_of_mem _ (part.subset member)
          cases matched with
          | whole _ insertedNew footprint =>
              rw [List.append_assoc] at allStored allApart owned
              apply Simulates.after leaves inner _ owned
              refine ⟨_, after, _, rfl, rfl, .whole _ _ _, .unchanged rfl (.internal kept ?_ ?_
                allStored allApart) fun _ member => member⟩
              · rw [List.map_append]
                exact holds
              · rw [List.map_append]
                exact newChildren.symm
          | split _ insertedNew footprint promoted right =>
              rw [List.append_assoc] at allStored allApart owned
              apply Simulates.after leaves inner _ owned
              apply absorbSplit_simulates kept
              · rw [List.map_append]
                exact holds
              · refine ⟨?_, allStored, allApart⟩
                rw [List.map_append]
                exact newChildren.symm

/-- The search in memory. -/
theorem nodeSearch_stored (key : Int32) {fuel : Nat} {store : Store} {branch : Branch}
    (stored : Stored store.nodes branch) (enough : branch.footprint.length ≤ fuel) :
    nodeSearch store key fuel branch.address = some (Bptree.nodeSearch branch.node key) := by
  induction fuel generalizing branch with
  | zero => exact absurd enough (Nat.not_le.mpr stored.footprint_pos)
  | succ fuel ih =>
      cases stored with
      | @leaf address entries next leaf present holds =>
          have loaded : store.load address = some leaf := present
          rw [nodeSearch, Bptree.nodeSearch, loaded]
          simp only [holds.isLeaf, holds.leafFindPosition, holds.leafHas, Option.bind_eq_bind,
            Option.bind_some, ↓reduceIte]
          rcases found : entries[Bptree.leafFindPosition key entries]? with _ | entry
          · rfl
          · simp only [holds.value found, Option.any_some, Option.bind_some]
            by_cases same : entry.1 = key
            · rw [if_pos (beq_iff_eq.mpr same), if_pos same]
              rfl
            · rw [if_neg (beq_iff_eq.not.mpr same), if_neg same]
              rfl
      | @internal address first rest row node present holds children stored apart =>
          have loaded : store.load address = some node := present
          have counted := holds.childIndexForKey key
          obtain ⟨front, child, back, rfl, index, same, pointer, part⟩ :=
            exists_child holds children key
          rw [index] at counted
          rw [nodeSearch, Bptree.nodeSearch, loaded, index, ← same]
          simp only [holds.isLeaf, counted, pointer, Option.bind_eq_bind, Option.bind_some,
            Bool.false_eq_true, ↓reduceIte]
          exact ih (stored child (List.mem_append_right _ List.mem_cons_self))
            (part.length_le.trans (Nat.le_of_succ_le_succ enough))

/-- The tree is in memory. -/
structure Keeps (store : Store) (tree : BPlusTree) (spec : Bptree.BPlusTree) : Prop where
  root : Option.Rel (fun address node => ∃ footprint,
    Stored store.nodes { node := node, address := address, footprint := footprint })
    tree.root spec.root
  size : tree.size = spec.size
  created : spec.created = store.nodes.length

/-- A search never leaves the arrays. -/
theorem Keeps.search {store : Store} {tree : BPlusTree} {spec : Bptree.BPlusTree}
    (keeps : Keeps store tree spec) (key : Int32) :
    bptreeSearch tree key store = some (Bptree.bptreeSearch spec key) := by
  have rooted := keeps.root
  unfold bptreeSearch Bptree.bptreeSearch
  generalize tree.root = address at rooted ⊢
  generalize spec.root = node at rooted ⊢
  cases rooted with
  | none => rfl
  | some stored =>
      obtain ⟨footprint, stored⟩ := stored
      exact nodeSearch_stored key stored stored.length_le

/-- The root to insert into. -/
theorem Keeps.ensureRoot {store : Store} {tree : BPlusTree} {spec : Bptree.BPlusTree}
    (keeps : Keeps store tree spec) :
    (∃ after, ensureRoot tree store = (none, after) ∧ after.nodes = store.nodes ∧
      Bptree.ensureRoot spec store.heap = (none, after.supply)) ∨
    ∃ branch after, ensureRoot tree store = (some branch.address, after) ∧
      Bptree.ensureRoot spec store.heap = (some branch.node, after.supply) ∧
      Stored after.nodes branch := by
  have rooted := keeps.root
  have supply : { heap := store.heap, created := spec.created : NodeSupply } = store.supply := by
    rw [keeps.created, Store.supply]
  unfold Memory.ensureRoot Bptree.ensureRoot
  rw [supply]
  generalize tree.root = address at rooted ⊢
  generalize spec.root = node at rooted ⊢
  cases rooted with
  | some stored =>
      obtain ⟨footprint, stored⟩ := stored
      exact .inr ⟨_, store, rfl, rfl, stored⟩
  | none =>
      dsimp only
      rcases nodeCreate_cases true store with
        ⟨after, ran, same, created⟩ | ⟨after, ran, newNodes, created⟩ <;> rw [ran, created]
      · exact .inl ⟨after, rfl, same, rfl⟩
      · refine .inr ⟨{ node := .leaf store.nodes.length [] none, address := store.nodes.length
                       footprint := [store.nodes.length] }, after, rfl, rfl, ?_⟩
        apply Stored.leaf _ holdsEntries_zeroed
        rw [newNodes, List.getElem?_concat_length]

/-- **`bptree_insert` in memory.** -/
theorem Keeps.insert {store : Store} {tree : BPlusTree} {spec : Bptree.BPlusTree}
    (keeps : Keeps store tree spec) (key : Int32) (value : Nat) :
    ∃ returned after memory, bptreeInsert tree key value store = some (returned, after, memory) ∧
      (Bptree.bptreeInsert spec key value store.heap).1 = returned ∧
      Keeps memory after (Bptree.bptreeInsert spec key value store.heap).2.1 ∧
      (Bptree.bptreeInsert spec key value store.heap).2.2 = memory.heap := by
  unfold bptreeInsert Bptree.bptreeInsert
  rcases keeps.ensureRoot with
    ⟨after, ran, same, created⟩ | ⟨branch, middle, ran, created, stored⟩ <;> rw [ran, created]
  · refine ⟨_, _, after, rfl, rfl, ⟨?_, keeps.size, ?_⟩, rfl⟩
    · rw [same]
      exact keeps.root
    · rw [same]
      exact keeps.created
  · obtain ⟨result, after, branches, inserted, supply, matched, leaves⟩ :=
      nodeInsert_simulates key value stored stored.length_le
    dsimp only
    rcases outcome : Bptree.nodeInsert branch.node key value middle.supply with
      ⟨childNode, childResult, final⟩
    rw [outcome] at supply matched
    obtain rfl : final = after.supply := supply
    simp only [inserted, Option.bind_eq_bind, Option.bind_some]
    cases matched with
    | whole _ insertedNew footprint =>
        refine ⟨_, _, after, rfl, rfl, ⟨.some ⟨footprint, ?_⟩, ?_, rfl⟩, rfl⟩
        · exact leaves.stored _ List.mem_cons_self
        · rw [keeps.size]
    | split _ insertedNew footprint promoted right =>
        have leftStored := leaves.stored _ List.mem_cons_self
        have rightStored := leaves.stored right (List.mem_cons_of_mem _ List.mem_cons_self)
        dsimp only
        rcases nodeCreate_cases false after with
          ⟨last, ran, same, created⟩ | ⟨last, ran, newNodes, created⟩ <;> rw [ran, created]
        · refine ⟨_, _, last, rfl, rfl, ⟨.some ⟨footprint, ?_⟩, ?_, rfl⟩, rfl⟩
          · rw [same]
            exact leftStored
          · rw [keeps.size]
        · obtain ⟨node, filled, held⟩ := @rootHalves_holds (Node.zeroed false) rfl promoted
            branch.address right.address
          have loaded : last.load after.nodes.length = some (Node.zeroed false) := by
            rw [Store.load, newNodes, List.getElem?_concat_length]
          have bound : after.nodes.length < last.nodes.length :=
            (List.getElem?_eq_some_iff.mp loaded).1
          have grown : Stored (last.nodes.set after.nodes.length node)
              { node := .internal childNode [(promoted, right.node)]
                address := after.nodes.length
                footprint := after.nodes.length ::
                  [{ node := childNode, address := branch.address, footprint := footprint },
                    right].flatMap Branch.footprint } := by
            have below := lt_length_of_row leaves.stored
            refine .internal (List.getElem?_set_self bound) held rfl ?_
              (List.nodup_cons.mpr ⟨fun member => Nat.lt_irrefl _ (below _ member), leaves.apart⟩)
            apply frame_row leaves.stored
            intro inner member
            have old := below inner member
            rw [List.getElem?_set_ne (by omega), newNodes, List.getElem?_append_left old]
          simp only [loaded, filled, save_present loaded, Option.bind_some]
          refine ⟨_, _, _, rfl, rfl, ⟨.some ⟨_, grown⟩, ?_, ?_⟩, rfl⟩
          · rw [keeps.size]
          · exact (congrArg NodeSupply.created (supply_set _ _ _)).symm

/-- `bptree_insert(&tree, key, value)` for every write in turn: the tree, the memory, and whether
every call returned 1. -/
def insertAll (writes : List (Int32 × Nat)) (heap : Heap) : Option (BPlusTree × Store × Bool) :=
  writes.foldlM (fun state write => do
    let (inserted, tree, store) ← bptreeInsert state.1 write.1 write.2 state.2.1
    return (tree, store, state.2.2 && inserted)) (bptreeInit, { heap := heap, nodes := [] }, true)

/-- The run in memory is the run on trees. -/
theorem insertAll_keeps (writes : List (Int32 × Nat)) (heap : Heap) :
    ∃ tree store, insertAll writes heap = some (tree, store, (Bptree.insertAll writes heap).2.2) ∧
      Keeps store tree (Bptree.insertAll writes heap).1 ∧
      (Bptree.insertAll writes heap).2.1 = store.heap := by
  induction writes using List.reverseRecOn with
  | nil => exact ⟨_, _, rfl, ⟨.none, rfl, rfl⟩, rfl⟩
  | append_singleton writes write ih =>
      obtain ⟨tree, store, ran, keeps, sameHeap⟩ := ih
      obtain ⟨returned, after, memory, inserted, same, kept, heapAfter⟩ :=
        keeps.insert write.1 write.2
      rw [← sameHeap] at same kept heapAfter
      rw [insertAll_concat]
      refine ⟨after, memory, ?_, kept, heapAfter⟩
      rw [insertAll, List.foldlM_append, ← insertAll, ran, Option.bind_eq_bind, Option.bind_some,
        List.foldlM_cons, inserted]
      simp only [same]
      rfl

/-- **The arrays of the tree are used safely.** After any sequence of insertions, whatever the
allocator does, an insertion and a search in memory have a result: every index is within its
array, what is read is part of the node's contents, and no null pointer is followed. The results
are those of the trees. -/
theorem insertAll_safe (writes : List (Int32 × Nat)) (heap : Heap) :
    ∃ tree store all, insertAll writes heap = some (tree, store, all) ∧
      ∀ key, (∀ value, ∃ returned after memory,
          bptreeInsert tree key value store = some (returned, after, memory)) ∧
        bptreeSearch tree key store =
          some (Bptree.bptreeSearch (Bptree.insertAll writes heap).1 key) := by
  obtain ⟨tree, store, ran, keeps, _⟩ := insertAll_keeps writes heap
  refine ⟨tree, store, _, ran, fun key => ⟨fun value => ?_, keeps.search key⟩⟩
  obtain ⟨returned, after, memory, inserted, _⟩ := keeps.insert key value
  exact ⟨returned, after, memory, inserted⟩

end MiniDbms.Bptree.Memory
