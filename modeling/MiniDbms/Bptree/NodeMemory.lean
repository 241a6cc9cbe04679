import MiniDbms.Bptree.Node
import MiniDbms.Foundation.CountedLoops

/-! # The functions of `bptree.c` in memory

A node's arrays are objects, a node pointer is the number of nodes created before the node, and
the loops of the source run over the arrays. An access has no result where the index is outside
of the array, where nothing was written there for the node's current contents, or where the
index of a read is not below `num_keys` (not above it, for `children`); neither has the descent
into a null pointer, or one that goes on for longer than there are nodes.

On one node, the loops do to the arrays what the operations of `MiniDbms.Bptree` do to lists
(`MiniDbms.Bptree.Memory.HoldsEntries.place`, `MiniDbms.Bptree.Memory.HoldsRow.place` and so
on), at every position and up to the largest node.
-/

namespace MiniDbms.Bptree.Memory

open Foundation

/-- `BpNode`. -/
structure Node where
  isLeaf : Bool
  numKeys : Nat
  keys : Block Int32
  children : Block (Option Nat)
  values : Block Nat
  next : Option Nat

namespace Node

/-- `calloc(1, sizeof(BpNode))` and the assignment of `is_leaf`. The zeros in the arrays are
not contents. -/
def zeroed (isLeaf : Bool) : Node where
  isLeaf := isLeaf
  numKeys := 0
  keys := .fresh bptreeMaxKeys
  children := .fresh (bptreeMaxKeys + 1)
  values := .fresh bptreeMaxKeys
  next := none

/-- `node->num_keys = ..` before the contents are written anew: what the arrays held is not
contents any longer. -/
def restart (node : Node) (numKeys : Nat) : Node :=
  { zeroed node.isLeaf with numKeys := numKeys, next := node.next }

/-- `node->keys[i]`. -/
def key (node : Node) (i : Nat) : Option Int32 :=
  if i < node.numKeys then node.keys.read i else none

/-- `node->values[i]`. -/
def value (node : Node) (i : Nat) : Option Nat :=
  if i < node.numKeys then node.values.read i else none

/-- `node->children[i]`. -/
def child (node : Node) (i : Nat) : Option (Option Nat) :=
  if i ≤ node.numKeys then node.children.read i else none

/-- `node->keys[i] = key`. -/
def setKey (node : Node) (i : Nat) (key : Int32) : Option Node := do
  let keys ← node.keys.write i key
  return { node with keys := keys }

/-- `node->values[i] = value`. -/
def setValue (node : Node) (i : Nat) (value : Nat) : Option Node := do
  let values ← node.values.write i value
  return { node with values := values }

/-- `node->children[i] = child`. -/
def setChild (node : Node) (i : Nat) (child : Option Nat) : Option Node := do
  let children ← node.children.write i child
  return { node with children := children }

end Node

/-- The nodes created so far, and the allocator. -/
structure Store where
  heap : Heap
  nodes : List Node

namespace Store

def load (store : Store) (address : Nat) : Option Node := store.nodes[address]?

def save (store : Store) (address : Nat) (node : Node) : Option Store :=
  if address < store.nodes.length then
    some { store with nodes := store.nodes.set address node }
  else none

end Store

/-- `node_create`. -/
def nodeCreate (isLeaf : Bool) (store : Store) : Option Nat × Store :=
  match store.heap.request sizeofBpNode with
  | (true, heap) =>
      (some store.nodes.length, { heap := heap, nodes := store.nodes ++ [Node.zeroed isLeaf] })
  | (false, heap) => (none, { store with heap := heap })

/-- `split`, `promoted_key` and `right` are present together. -/
structure InsertResult where
  split : Option (Int32 × Nat)
  insertedNew : Bool

/-- The loop that moves on past the keys that pass the test. -/
def scanKeys (node : Node) (test : Int32 → Bool) (pos : Nat) : Option Nat :=
  if pos < node.numKeys then do
    let stored ← node.key pos
    if test stored then scanKeys node test (pos + 1) else return pos
  else return pos
termination_by node.numKeys - pos

/-- `leaf_find_position`. -/
def leafFindPosition (leaf : Node) (key : Int32) : Option Nat := scanKeys leaf (· < key) 0

/-- `pos < leaf->num_keys && leaf->keys[pos] == key`. -/
def leafHas (leaf : Node) (pos : Nat) (key : Int32) : Option Bool :=
  if pos < leaf.numKeys then do
    let stored ← leaf.key pos
    return stored == key
  else return false

/-- A round of the loop of `leaf_insert` that moves entries up. -/
def shiftEntry (i : Nat) (leaf : Node) : Option Node := do
  let leaf ← leaf.setKey i (← leaf.key (i - 1))
  leaf.setValue i (← leaf.value (i - 1))

/-- The branch of `leaf_insert` that has room for the entry. -/
def leafPlace (leaf : Node) (pos : Nat) (key : Int32) (value : Nat) : Option Node := do
  let leaf ← countDown shiftEntry pos leaf.numKeys leaf
  let leaf ← leaf.setKey pos key
  let leaf ← leaf.setValue pos value
  return { leaf with numKeys := leaf.numKeys + 1 }

/-- `temp_keys` and `temp_values`, and the cursor `j` into the leaf. -/
structure LeafTemp where
  keys : Block Int32
  values : Block Nat
  j : Nat

/-- A round of the loop of `leaf_insert` that fills the temporary arrays. -/
def takeEntry (leaf : Node) (pos : Nat) (key : Int32) (value : Nat) (i : Nat) (temp : LeafTemp) :
    Option LeafTemp :=
  if i = pos then do
    let keys ← temp.keys.write i key
    let values ← temp.values.write i value
    return { temp with keys := keys, values := values }
  else do
    let keys ← temp.keys.write i (← leaf.key temp.j)
    let values ← temp.values.write i (← leaf.value temp.j)
    return { keys := keys, values := values, j := temp.j + 1 }

/-- The loop of `leaf_insert` that fills the temporary arrays. -/
def leafTemp (leaf : Node) (pos : Nat) (key : Int32) (value : Nat) : Option LeafTemp :=
  countUp (takeEntry leaf pos key value) (bptreeMaxKeys + 1) 0
    { keys := .fresh (bptreeMaxKeys + 1), values := .fresh (bptreeMaxKeys + 1), j := 0 }

/-- A round of the loops of `leaf_insert` that fill the halves from the temporary arrays. -/
def giveEntry (temp : LeafTemp) (start i : Nat) (leaf : Node) : Option Node := do
  let leaf ← leaf.setKey i (← temp.keys.read (start + i))
  leaf.setValue i (← temp.values.read (start + i))

/-- The new contents of a half. -/
def leafHalf (leaf : Node) (temp : LeafTemp) (start count : Nat) : Option Node :=
  countUp (giveEntry temp start) count 0 (leaf.restart count)

/-- The part of `leaf_insert` after the temporary arrays are filled. -/
def leafSplit (store : Store) (address : Nat) (leaf : Node) (temp : LeafTemp) :
    Option (InsertResult × Store) :=
  match nodeCreate true store with
  | (none, store) => return ({ split := none, insertedNew := false }, store)
  | (some right, store) => do
      let leftCount := (bptreeMaxKeys + 1) / 2
      let rightCount := bptreeMaxKeys + 1 - leftCount
      let leaf ← leafHalf leaf temp 0 leftCount
      let rightNode ← leafHalf (← store.load right) temp leftCount rightCount
      let store ← store.save right { rightNode with next := leaf.next }
      let store ← store.save address { leaf with next := some right }
      let promotedKey ← rightNode.key 0
      return ({ split := some (promotedKey, right), insertedNew := true }, store)

/-- `leaf_insert`. -/
def leafInsert (store : Store) (address : Nat) (key : Int32) (value : Nat) :
    Option (InsertResult × Store) := do
  let leaf ← store.load address
  let pos ← leafFindPosition leaf key
  if ← leafHas leaf pos key then
    let store ← store.save address (← leaf.setValue pos value)
    return ({ split := none, insertedNew := false }, store)
  else if leaf.numKeys < bptreeMaxKeys then
    let store ← store.save address (← leafPlace leaf pos key value)
    return ({ split := none, insertedNew := true }, store)
  else
    let temp ← leafTemp leaf pos key value
    leafSplit store address leaf temp

/-- `child_index_for_key`. -/
def childIndexForKey (node : Node) (key : Int32) : Option Nat := scanKeys node (· ≤ key) 0

/-- A round of the loop of `node_insert` that moves keys up. -/
def shiftKey (i : Nat) (node : Node) : Option Node := do
  node.setKey i (← node.key (i - 1))

/-- A round of the loop of `node_insert` that moves children up. -/
def shiftChild (i : Nat) (node : Node) : Option Node := do
  node.setChild i (← node.child (i - 1))

/-- The branch of `node_insert` that has room for the right half of the child. -/
def nodePlace (node : Node) (childIdx : Nat) (promotedKey : Int32) (right : Nat) :
    Option Node := do
  let node ← countDown shiftKey childIdx node.numKeys node
  let node ← countDown shiftChild (childIdx + 1) (node.numKeys + 1) node
  let node ← node.setKey childIdx promotedKey
  let node ← node.setChild (childIdx + 1) (some right)
  return { node with numKeys := node.numKeys + 1 }

/-- A temporary array, and the cursor `j` into the node. -/
structure Temp (Item : Type) where
  items : Block Item
  j : Nat

/-- A round of the loops of `node_insert` that fill the temporary arrays. -/
def takeItem {Item : Type} (read : Nat → Option Item) (place : Nat) (item : Item) (i : Nat)
    (temp : Temp Item) : Option (Temp Item) :=
  if i = place then do
    let items ← temp.items.write i item
    return { temp with items := items }
  else do
    let items ← temp.items.write i (← read temp.j)
    return { items := items, j := temp.j + 1 }

/-- A loop of `node_insert` that fills a temporary array of `total` items. -/
def nodeTemp {Item : Type} (read : Nat → Option Item) (place : Nat) (item : Item) (total : Nat) :
    Option (Temp Item) :=
  countUp (takeItem read place item) total 0 { items := .fresh total, j := 0 }

/-- A round of the loops of `node_insert` that fill the keys of the halves. -/
def giveKey (temp : Temp Int32) (start i : Nat) (node : Node) : Option Node := do
  node.setKey i (← temp.items.read (start + i))

/-- A round of the loops of `node_insert` that fill the children of the halves. -/
def giveChild (temp : Temp (Option Nat)) (start i : Nat) (node : Node) : Option Node := do
  node.setChild i (← temp.items.read (start + i))

/-- The new contents of a half. -/
def nodeHalf (node : Node) (tempKeys : Temp Int32) (tempChildren : Temp (Option Nat))
    (start count : Nat) : Option Node := do
  let node ← countUp (giveKey tempKeys start) count 0 (node.restart count)
  countUp (giveChild tempChildren start) (count + 1) 0 node

/-- A round of the loop of `node_insert` that clears the rest of the children. -/
def clearChild (i : Nat) (node : Node) : Option Node := node.setChild i none

/-- The part of `node_insert` after the temporary arrays are filled. -/
def nodeSplit (store : Store) (address : Nat) (node : Node) (tempKeys : Temp Int32)
    (tempChildren : Temp (Option Nat)) (insertedNew : Bool) : Option (InsertResult × Store) :=
  match nodeCreate false store with
  | (none, store) => return ({ split := none, insertedNew := false }, store)
  | (some right, store) => do
      let mid := (bptreeMaxKeys + 1) / 2
      let rightKeys := bptreeMaxKeys + 1 - mid - 1
      let node ← nodeHalf node tempKeys tempChildren 0 mid
      let node ← countUp clearChild (bptreeMaxKeys + 1) (mid + 1) node
      let rightNode ← nodeHalf (← store.load right) tempKeys tempChildren (mid + 1) rightKeys
      let store ← store.save right rightNode
      let store ← store.save address node
      let promotedKey ← tempKeys.items.read mid
      return ({ split := some (promotedKey, right), insertedNew := insertedNew }, store)

/-- The part of `node_insert` after the child was split. -/
def absorbSplit (store : Store) (address childIdx : Nat) (promotedKey : Int32) (right : Nat)
    (insertedNew : Bool) : Option (InsertResult × Store) := do
  let node ← store.load address
  if node.numKeys < bptreeMaxKeys then
    let store ← store.save address (← nodePlace node childIdx promotedKey right)
    return ({ split := none, insertedNew := insertedNew }, store)
  else
    let tempKeys ← nodeTemp node.key childIdx promotedKey (bptreeMaxKeys + 1)
    let tempChildren ← nodeTemp node.child (childIdx + 1) (some right) (bptreeMaxKeys + 2)
    nodeSplit store address node tempKeys tempChildren insertedNew

/-- `node_insert`, on at most `fuel` levels. -/
def nodeInsert (key : Int32) (value : Nat) :
    Nat → Store → Nat → Option (InsertResult × Store)
  | 0, _, _ => none
  | fuel + 1, store, address => do
      let node ← store.load address
      if node.isLeaf then leafInsert store address key value
      else
        let childIdx ← childIndexForKey node key
        let child ← (← node.child childIdx)
        let (childResult, store) ← nodeInsert key value fuel store child
        match childResult.split with
        | none => return (childResult, store)
        | some (promotedKey, right) =>
            absorbSplit store address childIdx promotedKey right childResult.insertedNew

/-- The descent and the final lookup of `bptree_search`, on at most `fuel` levels. -/
def nodeSearch (store : Store) (key : Int32) : Nat → Nat → Option (Option Nat)
  | 0, _ => none
  | fuel + 1, address => do
      let node ← store.load address
      if node.isLeaf then
        let pos ← leafFindPosition node key
        if ← leafHas node pos key then
          let value ← node.value pos
          return some value
        else return none
      else
        let idx ← childIndexForKey node key
        let child ← (← node.child idx)
        nodeSearch store key fuel child

structure BPlusTree where
  root : Option Nat
  size : Nat

/-- `bptree_init`. -/
def bptreeInit : BPlusTree := { root := none, size := 0 }

/-- The root to insert into, created when the tree is still empty. -/
def ensureRoot (tree : BPlusTree) (store : Store) : Option Nat × Store :=
  match tree.root with
  | some root => (some root, store)
  | none => nodeCreate true store

/-- The contents that `bptree_insert` writes into a new root. -/
def rootHalves (node : Node) (promotedKey : Int32) (left right : Nat) : Option Node := do
  let node ← (node.restart 1).setKey 0 promotedKey
  let node ← node.setChild 0 (some left)
  node.setChild 1 (some right)

/-- `bptree_insert`: the returned flag, the tree and the memory after it. -/
def bptreeInsert (tree : BPlusTree) (key : Int32) (value : Nat) (store : Store) :
    Option (Bool × BPlusTree × Store) :=
  match ensureRoot tree store with
  | (none, store) => return (false, tree, store)
  | (some root, store) => do
      let (result, store) ← nodeInsert key value store.nodes.length store root
      let size := if result.insertedNew then tree.size + 1 else tree.size
      match result.split with
      | none => return (true, { root := some root, size := size }, store)
      | some (promotedKey, right) =>
          match nodeCreate false store with
          | (none, store) => return (false, { root := some root, size := size }, store)
          | (some newRoot, store) =>
              let node ← rootHalves (← store.load newRoot) promotedKey root right
              let store ← store.save newRoot node
              return (true, { root := some newRoot, size := size }, store)

/-- `bptree_search`: the value found, if any. -/
def bptreeSearch (tree : BPlusTree) (key : Int32) (store : Store) : Option (Option Nat) :=
  match tree.root with
  | none => return none
  | some root => nodeSearch store key store.nodes.length root

section Accesses

variable {node : Node} {ks : List Int32} {i : Nat}

theorem key_of_read {key : Int32} (inside : i < node.numKeys)
    (read : node.keys.read i = some key) : node.key i = some key := by
  rw [Node.key, if_pos inside, read]

theorem value_of_read {value : Nat} (inside : i < node.numKeys)
    (read : node.values.read i = some value) : node.value i = some value := by
  rw [Node.value, if_pos inside, read]

theorem child_of_read {child : Option Nat} (inside : i ≤ node.numKeys)
    (read : node.children.read i = some child) : node.child i = some child := by
  rw [Node.child, if_pos inside, read]

theorem setKey_of_write {key : Int32} {keys : Block Int32}
    (written : node.keys.write i key = some keys) :
    node.setKey i key = some { node with keys := keys } := by
  rw [Node.setKey, written]
  rfl

theorem setValue_of_write {value : Nat} {values : Block Nat}
    (written : node.values.write i value = some values) :
    node.setValue i value = some { node with values := values } := by
  rw [Node.setValue, written]
  rfl

theorem setChild_of_write {child : Option Nat} {children : Block (Option Nat)}
    (written : node.children.write i child = some children) :
    node.setChild i child = some { node with children := children } := by
  rw [Node.setChild, written]
  rfl

/-- The loop stops behind the leading keys that pass the test. -/
theorem scanKeys_eq (holds : node.keys.Holds ks) (count : node.numKeys = ks.length)
    (test : Int32 → Bool) {pos : Nat} (inside : pos ≤ ks.length) :
    scanKeys node test pos = some (pos + ((ks.drop pos).takeWhile test).length) := by
  fun_induction scanKeys node test pos with
  | case1 pos more ih =>
      have present : pos < ks.length := count ▸ more
      rw [key_of_read more (holds.read (List.getElem?_eq_getElem present)), Option.bind_eq_bind,
        Option.bind_some, List.drop_eq_getElem_cons present, List.takeWhile_cons]
      split
      · rw [ih present, List.length_cons]
        congr 1
        omega
      · rfl
  | case2 pos finished =>
      have behind : ks.length ≤ pos := by omega
      rw [List.drop_eq_nil_of_le behind, List.takeWhile_nil, List.length_nil]
      rfl

end Accesses

/-- A leaf with `count` entries whose arrays are as told. -/
structure LeafWith (count : Nat) (next : Option Nat) (keys : Block Int32 → Prop)
    (values : Block Nat → Prop) (leaf : Node) : Prop where
  isLeaf : leaf.isLeaf = true
  count : leaf.numKeys = count
  keys : keys leaf.keys
  values : values leaf.values
  keysSize : leaf.keys.size = bptreeMaxKeys
  valuesSize : leaf.values.size = bptreeMaxKeys
  next : leaf.next = next

/-- A leaf whose contents are these entries. -/
def HoldsEntries (entries : List (Int32 × Nat)) (next : Option Nat) : Node → Prop :=
  LeafWith entries.length next (·.Holds (entries.map Prod.fst)) (·.Holds (entries.map Prod.snd))

/-- A leaf whose contents are to be written anew. -/
theorem LeafWith.restart {leaf : Node} (isLeaf : leaf.isLeaf = true) (size : Nat) :
    LeafWith size leaf.next (·.Holds []) (·.Holds []) (leaf.restart size) where
  isLeaf := isLeaf
  count := rfl
  keys := Block.holds_nil _
  values := Block.holds_nil _
  keysSize := Block.size_fresh _
  valuesSize := Block.size_fresh _
  next := rfl

/-- Both arrays of a leaf are written. -/
theorem LeafWith.write {count i : Nat} {next : Option Nat} {keys keysAfter : Block Int32 → Prop}
    {values valuesAfter : Block Nat → Prop} {leaf : Node} {key : Int32} {value : Nat}
    (leafWith : LeafWith count next keys values leaf)
    (writesKey : ∃ after, leaf.keys.write i key = some after ∧ keysAfter after ∧
      after.size = leaf.keys.size)
    (writesValue : ∃ after, leaf.values.write i value = some after ∧ valuesAfter after ∧
      after.size = leaf.values.size) :
    ∃ middle after, leaf.setKey i key = some middle ∧ middle.numKeys = leaf.numKeys ∧
      middle.values = leaf.values ∧ middle.setValue i value = some after ∧
      LeafWith count next keysAfter valuesAfter after := by
  obtain ⟨blockKeys, writtenKey, keysHeld, keysSize⟩ := writesKey
  obtain ⟨blockValues, writtenValue, valuesHeld, valuesSize⟩ := writesValue
  refine ⟨_, { leaf with keys := blockKeys, values := blockValues }, setKey_of_write writtenKey,
    rfl, rfl, setValue_of_write writtenValue, ?_⟩
  exact { leafWith with
    keys := keysHeld
    values := valuesHeld
    keysSize := keysSize.trans leafWith.keysSize
    valuesSize := valuesSize.trans leafWith.valuesSize }

section Leaves

variable {leaf : Node} {entries : List (Int32 × Nat)} {next : Option Nat} {pos i : Nat}

theorem holdsEntries_zeroed : HoldsEntries [] none (Node.zeroed true) :=
  @LeafWith.restart (Node.zeroed true) rfl 0

theorem HoldsEntries.length_le (holds : HoldsEntries entries next leaf) :
    entries.length ≤ bptreeMaxKeys := by
  have fits := holds.keys.length_le
  rwa [List.length_map, holds.keysSize] at fits

/-- The position of a key is behind the smaller keys. -/
theorem length_takeWhile_lt (key : Int32) (entries : List (Int32 × Nat)) :
    ((entries.map Prod.fst).takeWhile (· < key)).length = Bptree.leafFindPosition key entries := by
  induction entries with
  | nil => rfl
  | cons entry entries ih =>
      rw [Bptree.leafFindPosition, List.map_cons, List.takeWhile_cons]
      by_cases below : entry.1 < key
      · rw [if_pos below, if_pos (decide_eq_true below), List.length_cons, ih]
      · rw [if_neg below, if_neg (by rwa [decide_eq_true_eq]), List.length_nil]

/-- The loop over the array finds the position in the list. -/
theorem HoldsEntries.leafFindPosition (holds : HoldsEntries entries next leaf) (key : Int32) :
    leafFindPosition leaf key = some (Bptree.leafFindPosition key entries) := by
  have count : leaf.numKeys = (entries.map Prod.fst).length := by rw [holds.count, List.length_map]
  rw [Memory.leafFindPosition, scanKeys_eq holds.keys count _ (Nat.zero_le _), Nat.zero_add,
    List.drop_zero, length_takeWhile_lt]

theorem HoldsEntries.key (holds : HoldsEntries entries next leaf) {entry : Int32 × Nat}
    (present : entries[i]? = some entry) : leaf.key i = some entry.1 := by
  have inside : i < leaf.numKeys := holds.count ▸ (List.getElem?_eq_some_iff.mp present).1
  exact key_of_read inside (holds.keys.read (by rw [List.getElem?_map, present]; rfl))

theorem HoldsEntries.value (holds : HoldsEntries entries next leaf) {entry : Int32 × Nat}
    (present : entries[i]? = some entry) : leaf.value i = some entry.2 := by
  have inside : i < leaf.numKeys := holds.count ▸ (List.getElem?_eq_some_iff.mp present).1
  exact value_of_read inside (holds.values.read (by rw [List.getElem?_map, present]; rfl))

/-- The array tells whether the entry at a position has the key. -/
theorem HoldsEntries.leafHas (holds : HoldsEntries entries next leaf) (pos : Nat) (key : Int32) :
    leafHas leaf pos key = some ((entries[pos]?).any (·.1 == key)) := by
  rw [Memory.leafHas, holds.count]
  split
  · next inside =>
      rw [holds.key (List.getElem?_eq_getElem inside), List.getElem?_eq_getElem inside]
      rfl
  · next outside =>
      rw [List.getElem?_eq_none (Nat.not_lt.mp outside)]
      rfl

/-- The value of a stored key is replaced. -/
theorem HoldsEntries.rewrite (holds : HoldsEntries entries next leaf) {key : Int32}
    (found : (entries[pos]?).any (·.1 == key) = true) (value : Nat) :
    ∃ after, leaf.setValue pos value = some after ∧
      HoldsEntries (entries.set pos (key, value)) next after := by
  obtain ⟨entry, present, same⟩ :
      ∃ entry, entries[pos]? = some entry ∧ (entry.1 == key) = true := by
    rcases present : entries[pos]? with _ | entry <;> rw [present] at found
    · cases found
    · exact ⟨entry, rfl, found⟩
  obtain ⟨inside, rfl⟩ := List.getElem?_eq_some_iff.mp present
  have inside' : pos < (entries.map Prod.fst).length := by rwa [List.length_map]
  obtain ⟨values, written, held, size⟩ := holds.values.set (by rwa [List.length_map]) value
  have stored : (entries.map Prod.fst)[pos] = key := by
    rw [List.getElem_map]
    exact beq_iff_eq.mp same
  refine ⟨_, setValue_of_write written, ?_⟩
  exact { holds with
    count := by rw [List.length_set]; exact holds.count
    keys := by
      rw [List.map_set, ← stored, List.set_getElem_self]
      exact holds.keys
    values := by rwa [List.map_set]
    valuesSize := size.trans holds.valuesSize }

/-- A leaf whose entries from `i` on have moved up. -/
def ShiftedEntries (entries : List (Int32 × Nat)) (next : Option Nat) (i : Nat) : Node → Prop :=
  LeafWith entries.length next (·.Shifted (entries.map Prod.fst) i)
    (·.Shifted (entries.map Prod.snd) i)

/-- Before the loop nothing has been shifted. -/
theorem HoldsEntries.shifted (holds : HoldsEntries entries next leaf) :
    ShiftedEntries entries next entries.length leaf :=
  { holds with
    keys := by simpa only [List.length_map] using holds.keys.shifted
    values := by simpa only [List.length_map] using holds.values.shifted }

/-- One round of the loop shifts one entry. -/
theorem ShiftedEntries.round (shifted : ShiftedEntries entries next (i + 1) leaf)
    (inside : i < entries.length) (room : entries.length < bptreeMaxKeys) :
    ∃ after, shiftEntry (i + 1) leaf = some after ∧ ShiftedEntries entries next i after := by
  have here : i < leaf.numKeys := shifted.count ▸ inside
  obtain ⟨key, readKey, writesKey⟩ :=
    shifted.keys.round (by rwa [List.length_map]) (by rwa [List.length_map, shifted.keysSize])
  obtain ⟨value, readValue, writesValue⟩ :=
    shifted.values.round (by rwa [List.length_map]) (by rwa [List.length_map, shifted.valuesSize])
  obtain ⟨middle, after, first, sameCount, sameValues, second, held⟩ :=
    shifted.write writesKey writesValue
  refine ⟨after, ?_, held⟩
  have readMiddle : middle.value i = some value :=
    value_of_read (sameCount ▸ here) (sameValues ▸ readValue)
  simp only [shiftEntry, Nat.add_sub_cancel, key_of_read here readKey, first, readMiddle, second,
    Option.bind_eq_bind, Option.bind_some]

/-- Room is made for the entry, and the entry put there. -/
theorem HoldsEntries.place (holds : HoldsEntries entries next leaf)
    (inside : pos ≤ entries.length) (room : entries.length < bptreeMaxKeys) (key : Int32)
    (value : Nat) :
    ∃ after, leafPlace leaf pos key value = some after ∧
      HoldsEntries (entries.insertIdx pos (key, value)) next after := by
  obtain ⟨opened, ran, shifted⟩ := countDown_rule (ShiftedEntries entries next) inside
    holds.shifted fun i leaf _ below shifted => shifted.round below room
  obtain ⟨middle, after, first, _, _, second, held⟩ := shifted.write
    (shifted.keys.insert (by rwa [List.length_map])
      (by rwa [List.length_map, shifted.keysSize]) key)
    (shifted.values.insert (by rwa [List.length_map])
      (by rwa [List.length_map, shifted.valuesSize]) value)
  refine ⟨{ after with numKeys := after.numKeys + 1 }, ?_, ?_⟩
  · simp only [leafPlace, holds.count, ran, first, second, Option.bind_eq_bind, Option.bind_some]
    rfl
  · exact { held with
      count := by rw [List.length_insertIdx_of_le_length inside, ← held.count]
      keys := by rw [List.map_insertIdx]; exact held.keys
      values := by rw [List.map_insertIdx]; exact held.values }

/-- The temporary arrays when the first `i` of the entries are in them. -/
structure TakenEntries (wide : List (Int32 × Nat)) (pos i : Nat) (temp : LeafTemp) : Prop where
  j : temp.j = cursor pos i
  keys : temp.keys.Holds ((wide.map Prod.fst).take i)
  values : temp.values.Holds ((wide.map Prod.snd).take i)
  keysSize : temp.keys.size = wide.length
  valuesSize : temp.values.size = wide.length

/-- One round copies one entry to the temporary arrays. -/
theorem TakenEntries.round {temp : LeafTemp} {key : Int32} {value : Nat}
    (taken : TakenEntries (entries.insertIdx pos (key, value)) pos i temp)
    (holds : HoldsEntries entries next leaf) (inside : pos ≤ entries.length)
    (more : i < (entries.insertIdx pos (key, value)).length) :
    ∃ after, takeEntry leaf pos key value i temp = some after ∧
      TakenEntries (entries.insertIdx pos (key, value)) pos (i + 1) after := by
  have writes : ∀ entry, (entries.insertIdx pos (key, value))[i]? = some entry →
      (∃ keys, temp.keys.write i entry.1 = some keys ∧
        keys.Holds (((entries.insertIdx pos (key, value)).map Prod.fst).take (i + 1)) ∧
        keys.size = temp.keys.size) ∧
      ∃ values, temp.values.write i entry.2 = some values ∧
        values.Holds (((entries.insertIdx pos (key, value)).map Prod.snd).take (i + 1)) ∧
        values.size = temp.values.size := by
    intro entry present
    constructor
    · exact taken.keys.write_next (by rw [List.getElem?_map, present]; rfl)
        (by rw [List.length_map, taken.keysSize])
    · exact taken.values.write_next (by rw [List.getElem?_map, present]; rfl)
        (by rw [List.length_map, taken.valuesSize])
  unfold takeEntry
  split
  · next here =>
      subst here
      obtain ⟨⟨keys, writtenKey, keysHeld, keysSize⟩, values, writtenValue, valuesHeld,
        valuesSize⟩ := writes (key, value) (getElem?_place inside)
      refine ⟨{ temp with keys := keys, values := values }, ?_, ?_⟩
      · rw [writtenKey, writtenValue]
        rfl
      · exact {
          j := taken.j.trans (cursor_place i).symm
          keys := keysHeld
          values := valuesHeld
          keysSize := keysSize.trans taken.keysSize
          valuesSize := valuesSize.trans taken.valuesSize }
  · next other =>
      obtain ⟨entry, present, copied⟩ := exists_cursor other inside more
      rw [← taken.j] at present
      obtain ⟨⟨keys, writtenKey, keysHeld, keysSize⟩, values, writtenValue, valuesHeld,
        valuesSize⟩ := writes entry copied
      refine ⟨{ keys := keys, values := values, j := temp.j + 1 }, ?_, ?_⟩
      · simp only [holds.key present, holds.value present, writtenKey, writtenValue,
          Option.bind_eq_bind, Option.bind_some]
        rfl
      · exact {
          j := by rw [cursor_succ other, taken.j]
          keys := keysHeld
          values := valuesHeld
          keysSize := keysSize.trans taken.keysSize
          valuesSize := valuesSize.trans taken.valuesSize }

/-- The temporary arrays of a full leaf hold its entries and the new one. -/
theorem HoldsEntries.temp (holds : HoldsEntries entries next leaf)
    (inside : pos ≤ entries.length) (full : entries.length = bptreeMaxKeys) (key : Int32)
    (value : Nat) :
    ∃ temp, leafTemp leaf pos key value = some temp ∧
      temp.keys.Holds ((entries.insertIdx pos (key, value)).map Prod.fst) ∧
      temp.values.Holds ((entries.insertIdx pos (key, value)).map Prod.snd) := by
  have total : (entries.insertIdx pos (key, value)).length = bptreeMaxKeys + 1 := by
    rw [List.length_insertIdx_of_le_length inside, full]
  have start : TakenEntries (entries.insertIdx pos (key, value)) pos 0
      { keys := .fresh (bptreeMaxKeys + 1), values := .fresh (bptreeMaxKeys + 1), j := 0 } := {
    j := (if_pos (Nat.zero_le pos)).symm
    keys := Block.holds_nil _
    values := Block.holds_nil _
    keysSize := by rw [Block.size_fresh, total]
    valuesSize := by rw [Block.size_fresh, total] }
  obtain ⟨temp, ran, taken⟩ := countUp_rule
    (TakenEntries (entries.insertIdx pos (key, value)) pos) (Nat.zero_le _) start
    fun i temp _ below taken => taken.round holds inside (total ▸ below)
  refine ⟨temp, ran, ?_, ?_⟩
  · simpa only [List.length_map, total, List.take_of_length_le, Nat.le_refl] using taken.keys
  · simpa only [List.length_map, total, List.take_of_length_le, Nat.le_refl] using taken.values

/-- A leaf into which the first `i` of the `size` entries from `start` on have been copied. -/
def FilledEntries (wide : List (Int32 × Nat)) (start size : Nat) (next : Option Nat) (i : Nat) :
    Node → Prop :=
  LeafWith size next (·.Holds ((((wide.map Prod.fst).drop start).take size).take i))
    (·.Holds ((((wide.map Prod.snd).drop start).take size).take i))

/-- One round copies one entry back to a leaf. -/
theorem FilledEntries.round {temp : LeafTemp} {wide : List (Int32 × Nat)} {start size : Nat}
    (filled : FilledEntries wide start size next i leaf)
    (heldKeys : temp.keys.Holds (wide.map Prod.fst))
    (heldValues : temp.values.Holds (wide.map Prod.snd)) (enough : start + size ≤ wide.length)
    (room : size ≤ bptreeMaxKeys) (more : i < size) :
    ∃ after, giveEntry temp start i leaf = some after ∧
      FilledEntries wide start size next (i + 1) after := by
  obtain ⟨key, readKey, writesKey⟩ := filled.keys.copy_next heldKeys (by rwa [List.length_map])
    (by rwa [filled.keysSize]) more
  obtain ⟨value, readValue, writesValue⟩ := filled.values.copy_next heldValues
    (by rwa [List.length_map]) (by rwa [filled.valuesSize]) more
  obtain ⟨middle, after, first, _, _, second, held⟩ := filled.write writesKey writesValue
  refine ⟨after, ?_, held⟩
  simp only [giveEntry, readKey, readValue, first, second, Option.bind_eq_bind, Option.bind_some]

/-- A half gets `size` of the entries in the temporary arrays, from `start` on. -/
theorem HoldsEntries.half {temp : LeafTemp} {wide : List (Int32 × Nat)}
    (holds : HoldsEntries entries next leaf) (heldKeys : temp.keys.Holds (wide.map Prod.fst))
    (heldValues : temp.values.Holds (wide.map Prod.snd)) (start size : Nat)
    (enough : start + size ≤ wide.length) (room : size ≤ bptreeMaxKeys) :
    ∃ half, leafHalf leaf temp start size = some half ∧
      HoldsEntries ((wide.drop start).take size) next half := by
  have begun : FilledEntries wide start size next 0 (leaf.restart size) :=
    { LeafWith.restart holds.isLeaf size with next := holds.next }
  obtain ⟨half, ran, filled⟩ := countUp_rule (FilledEntries wide start size next)
    (Nat.zero_le size) begun
    fun i leaf _ more filled => filled.round heldKeys heldValues enough room more
  have length : ((wide.drop start).take size).length = size := by
    rw [List.length_take, List.length_drop]
    omega
  refine ⟨half, ran, { filled with
    count := filled.count.trans length.symm
    keys := ?_
    values := ?_ }⟩
  · simpa only [List.map_take, List.map_drop, List.take_take, Nat.min_self] using filled.keys
  · simpa only [List.map_take, List.map_drop, List.take_take, Nat.min_self] using filled.values

end Leaves

/-- An internal node with `count` keys whose arrays are as told. -/
structure RowWith (count : Nat) (keys : Block Int32 → Prop) (children : Block (Option Nat) → Prop)
    (node : Node) : Prop where
  isLeaf : node.isLeaf = false
  count : node.numKeys = count
  keys : keys node.keys
  children : children node.children
  keysSize : node.keys.size = bptreeMaxKeys
  childrenSize : node.children.size = bptreeMaxKeys + 1

/-- An internal node whose contents are these keys and children. -/
def HoldsRow (separators : List Int32) (pointers : List Nat) : Node → Prop :=
  RowWith separators.length (·.Holds separators) (·.Holds (pointers.map some))

section Rows

variable {node : Node} {count i : Nat} {keys keysAfter : Block Int32 → Prop}
  {children childrenAfter : Block (Option Nat) → Prop}

/-- A node whose contents are to be written anew. -/
theorem RowWith.restart (internal : node.isLeaf = false) (size : Nat) :
    RowWith size (·.Holds []) (·.Holds []) (node.restart size) where
  isLeaf := internal
  count := rfl
  keys := Block.holds_nil _
  children := Block.holds_nil _
  keysSize := Block.size_fresh _
  childrenSize := Block.size_fresh _

/-- Storing a key leaves the children as they are. -/
theorem RowWith.writeKey {key : Int32} (row : RowWith count keys children node)
    (writes : ∃ after, node.keys.write i key = some after ∧ keysAfter after ∧
      after.size = node.keys.size) :
    ∃ after, node.setKey i key = some after ∧ RowWith count keysAfter children after := by
  obtain ⟨after, written, held, size⟩ := writes
  exact ⟨_, setKey_of_write written,
    { row with keys := held, keysSize := size.trans row.keysSize }⟩

/-- Storing a child leaves the keys as they are. -/
theorem RowWith.writeChild {child : Option Nat} (row : RowWith count keys children node)
    (writes : ∃ after, node.children.write i child = some after ∧ childrenAfter after ∧
      after.size = node.children.size) :
    ∃ after, node.setChild i child = some after ∧ RowWith count keys childrenAfter after := by
  obtain ⟨after, written, held, size⟩ := writes
  exact ⟨_, setChild_of_write written,
    { row with children := held, childrenSize := size.trans row.childrenSize }⟩

variable {separators : List Int32} {pointers : List Nat} {childIdx : Nat}

/-- The index of a child is the number of separators up to the key. -/
theorem length_takeWhile_le (key : Int32) (rest : List (Int32 × BpNode)) :
    ((rest.map Prod.fst).takeWhile (· ≤ key)).length = Bptree.childIndexForKey key rest := by
  induction rest with
  | nil => rfl
  | cons slot rest ih =>
      rw [Bptree.childIndexForKey, List.map_cons, List.takeWhile_cons]
      by_cases below : slot.1 ≤ key
      · rw [if_pos below, if_pos (decide_eq_true below), List.length_cons, ih]
      · rw [if_neg below, if_neg (by rwa [decide_eq_true_eq]), List.length_nil]

theorem HoldsRow.childIndexForKey {rest : List (Int32 × BpNode)}
    (holds : HoldsRow (rest.map Prod.fst) pointers node) (key : Int32) :
    childIndexForKey node key = some (Bptree.childIndexForKey key rest) := by
  rw [Memory.childIndexForKey, scanKeys_eq holds.keys holds.count _ (Nat.zero_le _), Nat.zero_add,
    List.drop_zero, length_takeWhile_le]

theorem HoldsRow.length_le (holds : HoldsRow separators pointers node) :
    separators.length ≤ bptreeMaxKeys := by
  have fits := holds.keys.length_le
  rwa [holds.keysSize] at fits

theorem HoldsRow.key (holds : HoldsRow separators pointers node) {key : Int32}
    (present : separators[i]? = some key) : node.key i = some key :=
  key_of_read (holds.count ▸ (List.getElem?_eq_some_iff.mp present).1) (holds.keys.read present)

/-- The child at an index is that of the row. -/
theorem HoldsRow.child (holds : HoldsRow separators pointers node)
    (arity : pointers.length = separators.length + 1) {child : Option Nat}
    (present : (pointers.map some)[i]? = some child) : node.child i = some child := by
  have inside : i < (pointers.map some).length := (List.getElem?_eq_some_iff.mp present).1
  have counted : node.numKeys = separators.length := holds.count
  rw [List.length_map] at inside
  exact child_of_read (by omega) (holds.children.read present)

/-- One round of the loop shifts one separator. -/
theorem RowWith.shiftKey (row : RowWith count (·.Shifted separators (i + 1)) children node)
    (inside : i < separators.length) (counted : separators.length = count)
    (room : separators.length < bptreeMaxKeys) :
    ∃ after, shiftKey (i + 1) node = some after ∧
      RowWith count (·.Shifted separators i) children after := by
  obtain ⟨key, read, writes⟩ := row.keys.round inside (by rwa [row.keysSize])
  obtain ⟨after, written, shifted⟩ := row.writeKey writes
  refine ⟨after, ?_, shifted⟩
  have readable : node.key i = some key :=
    key_of_read (by rwa [row.count, ← counted]) read
  simp only [Memory.shiftKey, Nat.add_sub_cancel, readable, written, Option.bind_eq_bind,
    Option.bind_some]

/-- One round shifts one child. -/
theorem RowWith.shiftChild {stored : List (Option Nat)}
    (row : RowWith count keys (·.Shifted stored (i + 1)) node) (inside : i < stored.length)
    (counted : stored.length = count + 1) (room : count < bptreeMaxKeys) :
    ∃ after, shiftChild (i + 1) node = some after ∧
      RowWith count keys (·.Shifted stored i) after := by
  obtain ⟨child, read, writes⟩ := row.children.round inside (by
    rw [row.childrenSize]
    omega)
  obtain ⟨after, written, shifted⟩ := row.writeChild writes
  refine ⟨after, ?_, shifted⟩
  have readable : node.child i = some child :=
    child_of_read (by rw [row.count]; omega) read
  simp only [Memory.shiftChild, Nat.add_sub_cancel, readable, written, Option.bind_eq_bind,
    Option.bind_some]

/-- Room is made for the key and the child, and both are put there. -/
theorem HoldsRow.place (holds : HoldsRow separators pointers node)
    (arity : pointers.length = separators.length + 1) (inside : childIdx ≤ separators.length)
    (room : separators.length < bptreeMaxKeys) (promotedKey : Int32) (right : Nat) :
    ∃ after, nodePlace node childIdx promotedKey right = some after ∧
      HoldsRow (separators.insertIdx childIdx promotedKey)
        (pointers.insertIdx (childIdx + 1) right) after := by
  have length : (pointers.map some).length = separators.length + 1 := by
    rw [List.length_map, arity]
  have inside' : childIdx + 1 ≤ separators.length + 1 := Nat.succ_le_succ inside
  obtain ⟨opened, ranKeys, openedRow⟩ := countDown_rule
    (fun i => RowWith separators.length (·.Shifted separators i) (·.Holds (pointers.map some)))
    inside { holds with keys := holds.keys.shifted }
    fun i node _ below row => row.shiftKey below rfl room
  have begun : RowWith separators.length (·.Shifted separators childIdx)
      (·.Shifted (pointers.map some) (separators.length + 1)) opened :=
    { openedRow with children := length ▸ openedRow.children.shifted }
  obtain ⟨wide, ranChildren, wideRow⟩ := countDown_rule
    (fun i => RowWith separators.length (·.Shifted separators childIdx)
      (·.Shifted (pointers.map some) i))
    inside' begun fun i node _ below row => row.shiftChild (length ▸ below) length room
  obtain ⟨keyed, writtenKey, keyedRow⟩ := wideRow.writeKey
    (wideRow.keys.insert inside (by rwa [wideRow.keysSize]) promotedKey)
  obtain ⟨after, writtenChild, row⟩ := keyedRow.writeChild
    (keyedRow.children.insert (length ▸ inside') (by
      rw [length, keyedRow.childrenSize]
      omega) (some right))
  have counted : node.numKeys = separators.length := holds.count
  refine ⟨{ after with numKeys := after.numKeys + 1 }, ?_, ?_⟩
  · simp only [nodePlace, counted, ranKeys, openedRow.count, ranChildren, writtenKey, writtenChild,
      Option.bind_eq_bind, Option.bind_some]
    rfl
  · exact { row with
      count := by rw [List.length_insertIdx_of_le_length inside, ← row.count]
      children := by rw [List.map_insertIdx]; exact row.children }

/-- A temporary array when the first `i` of the items are in it. -/
structure TakenItems {Item : Type} (wide : List Item) (place i : Nat) (temp : Temp Item) :
    Prop where
  j : temp.j = cursor place i
  items : temp.items.Holds (wide.take i)
  size : temp.items.size = wide.length

/-- One round copies one item to a temporary array. -/
theorem TakenItems.round {Item : Type} {items : List Item} {item : Item} {place : Nat}
    {read : Nat → Option Item} {temp : Temp Item}
    (taken : TakenItems (items.insertIdx place item) place i temp)
    (reads : ∀ j stored, items[j]? = some stored → read j = some stored)
    (inside : place ≤ items.length) (more : i < (items.insertIdx place item).length) :
    ∃ after, takeItem read place item i temp = some after ∧
      TakenItems (items.insertIdx place item) place (i + 1) after := by
  unfold takeItem
  split
  · next here =>
      subst here
      obtain ⟨next, written, held, size⟩ :=
        taken.items.write_next (getElem?_place inside) taken.size.ge
      refine ⟨{ temp with items := next }, ?_, ?_⟩
      · rw [written]
        rfl
      · exact {
          j := taken.j.trans (cursor_place i).symm
          items := held
          size := size.trans taken.size }
  · next other =>
      obtain ⟨stored, present, copied⟩ := exists_cursor other inside more
      rw [← taken.j] at present
      obtain ⟨next, written, held, size⟩ := taken.items.write_next copied taken.size.ge
      refine ⟨{ items := next, j := temp.j + 1 }, ?_, ?_⟩
      · simp only [reads temp.j stored present, written, Option.bind_eq_bind, Option.bind_some]
        rfl
      · exact {
          j := by rw [cursor_succ other, taken.j]
          items := held
          size := size.trans taken.size }

/-- The temporary array holds the items that are read and the new one. -/
theorem nodeTemp_holds {Item : Type} {items : List Item} {place total : Nat}
    {read : Nat → Option Item} (reads : ∀ j stored, items[j]? = some stored → read j = some stored)
    (inside : place ≤ items.length) (counted : items.length + 1 = total) (item : Item) :
    ∃ temp, nodeTemp read place item total = some temp ∧
      temp.items.Holds (items.insertIdx place item) := by
  have length : (items.insertIdx place item).length = total := by
    rw [List.length_insertIdx_of_le_length inside, counted]
  have start : TakenItems (items.insertIdx place item) place 0
      { items := .fresh total, j := 0 } := {
    j := (if_pos (Nat.zero_le place)).symm
    items := Block.holds_nil _
    size := by rw [Block.size_fresh, length] }
  obtain ⟨temp, ran, taken⟩ := countUp_rule (TakenItems (items.insertIdx place item) place)
    (Nat.zero_le _) start fun i temp _ below taken => taken.round reads inside (length ▸ below)
  refine ⟨temp, ran, ?_⟩
  simpa only [← length, List.take_length] using taken.items

/-- One round copies one separator back to a node. -/
theorem RowWith.giveKey {temp : Temp Int32} {wide : List Int32} {start size : Nat}
    (row : RowWith count (·.Holds (((wide.drop start).take size).take i)) children node)
    (held : temp.items.Holds wide) (enough : start + size ≤ wide.length)
    (room : size ≤ bptreeMaxKeys) (more : i < size) :
    ∃ after, giveKey temp start i node = some after ∧
      RowWith count (·.Holds (((wide.drop start).take size).take (i + 1))) children after := by
  obtain ⟨key, read, writes⟩ := row.keys.copy_next held enough (by rwa [row.keysSize]) more
  obtain ⟨after, written, filled⟩ := row.writeKey writes
  refine ⟨after, ?_, filled⟩
  simp only [Memory.giveKey, read, written, Option.bind_eq_bind, Option.bind_some]

/-- One round copies one child back to a node. -/
theorem RowWith.giveChild {temp : Temp (Option Nat)} {wide : List (Option Nat)} {start size : Nat}
    (row : RowWith count keys (·.Holds (((wide.drop start).take size).take i)) node)
    (held : temp.items.Holds wide) (enough : start + size ≤ wide.length)
    (room : size ≤ bptreeMaxKeys + 1) (more : i < size) :
    ∃ after, giveChild temp start i node = some after ∧
      RowWith count keys (·.Holds (((wide.drop start).take size).take (i + 1))) after := by
  obtain ⟨child, read, writes⟩ := row.children.copy_next held enough (by rwa [row.childrenSize])
    more
  obtain ⟨after, written, filled⟩ := row.writeChild writes
  refine ⟨after, ?_, filled⟩
  simp only [Memory.giveChild, read, written, Option.bind_eq_bind, Option.bind_some]

/-- A half gets `size` of the keys in the temporary array, from `start` on, and the children
around them. -/
theorem nodeHalf_holds {tempKeys : Temp Int32} {tempChildren : Temp (Option Nat)}
    {wideKeys : List Int32} {wideChildren : List Nat}
    (internal : node.isLeaf = false) (heldKeys : tempKeys.items.Holds wideKeys)
    (heldChildren : tempChildren.items.Holds (wideChildren.map some)) (start size : Nat)
    (enough : start + size ≤ wideKeys.length) (enough' : start + size + 1 ≤ wideChildren.length)
    (room : size ≤ bptreeMaxKeys) :
    ∃ half, nodeHalf node tempKeys tempChildren start size = some half ∧
      HoldsRow ((wideKeys.drop start).take size) ((wideChildren.drop start).take (size + 1))
        half := by
  have begun : RowWith size (·.Holds (((wideKeys.drop start).take size).take 0))
      (·.Holds ((((wideChildren.map some).drop start).take (size + 1)).take 0))
      (node.restart size) := .restart internal size
  obtain ⟨keyed, ranKeys, keyedRow⟩ := countUp_rule
    (fun i => RowWith size (·.Holds (((wideKeys.drop start).take size).take i))
      (·.Holds ((((wideChildren.map some).drop start).take (size + 1)).take 0)))
    (Nat.zero_le size) begun
    fun i node _ more row => row.giveKey heldKeys enough room more
  obtain ⟨half, ranChildren, row⟩ := countUp_rule
    (fun i => RowWith size (·.Holds (((wideKeys.drop start).take size).take size))
      (·.Holds ((((wideChildren.map some).drop start).take (size + 1)).take i)))
    (Nat.zero_le (size + 1)) keyedRow
    fun i node _ more row => row.giveChild heldChildren (by rwa [List.length_map])
      (Nat.succ_le_succ room) more
  have length : ((wideKeys.drop start).take size).length = size := by
    rw [List.length_take, List.length_drop]
    omega
  refine ⟨half, ?_, { row with
    count := row.count.trans length.symm
    keys := ?_
    children := ?_ }⟩
  · simp only [nodeHalf, ranKeys, ranChildren, Option.bind_eq_bind, Option.bind_some]
  · simpa only [List.take_take, Nat.min_self] using row.keys
  · simpa only [List.map_take, List.map_drop, List.take_take, Nat.min_self] using row.children

/-- The new root holds both halves of the old one. -/
theorem rootHalves_holds (internal : node.isLeaf = false) (promoted : Int32) (left right : Nat) :
    ∃ after, rootHalves node promoted left right = some after ∧
      HoldsRow [promoted] [left, right] after := by
  have begun := RowWith.restart internal 1
  obtain ⟨keyed, first, keyedRow⟩ := begun.writeKey
    (begun.keys.write (by rw [begun.keysSize]; exact Nat.succ_pos _) promoted)
  obtain ⟨middle, second, middleRow⟩ := keyedRow.writeChild
    (keyedRow.children.write (by rw [keyedRow.childrenSize]; exact Nat.succ_pos _) (some left))
  have inside : 1 < middle.children.size := by
    rw [middleRow.childrenSize]
    exact Nat.succ_lt_succ (Nat.succ_pos 30)
  obtain ⟨after, third, row⟩ :=
    middleRow.writeChild (middleRow.children.write inside (some right))
  refine ⟨after, ?_, row⟩
  simp only [rootHalves, Option.bind_eq_bind]
  rw [show (node.restart 1).setKey 0 promoted = some keyed from first, Option.bind_some,
    show keyed.setChild 0 (some left) = some middle from second, Option.bind_some]
  exact third

/-- Clearing children behind those that the node has. -/
theorem HoldsRow.clear (holds : HoldsRow separators pointers node) (start : Nat)
    (behind : pointers.length ≤ start) (inside : start ≤ bptreeMaxKeys + 1) :
    ∃ after, countUp clearChild (bptreeMaxKeys + 1) start node = some after ∧
      HoldsRow separators pointers after := by
  apply countUp_rule (fun _ => HoldsRow separators pointers) inside holds
  intro i node later more row
  exact row.writeChild (row.children.write_behind (by rw [List.length_map]; omega)
    (by rwa [row.childrenSize]) none)

end Rows

end MiniDbms.Bptree.Memory
