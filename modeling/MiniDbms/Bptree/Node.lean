import MiniDbms.Foundation.Allocation
import MiniDbms.Foundation.CInt

/-! # The B+ tree of `bptree.c`

A leaf's `keys` and `values` are one list of pairs, and an internal node's
`keys[i]` is paired with the child to its right, `children[i + 1]`;
`children[0]` stands alone. The lists have `num_keys` entries, so the shifting
and copying loops of the source are list operations. A node pointer is the
number of nodes created for the tree before it; only leaves are pointed to from
elsewhere than their parent, by the `next` of their left neighbour.
-/

namespace MiniDbms.Bptree

open Foundation

/-- `BPTREE_MAX_KEYS`. -/
def bptreeMaxKeys : Nat := 31

/-- `sizeof(BpNode)`. -/
def sizeofBpNode : Nat := 648

inductive BpNode where
  | leaf (address : Nat) (entries : List (Int32 × Nat)) (next : Option Nat)
  | internal (first : BpNode) (rest : List (Int32 × BpNode))

/-- The allocator together with the number of nodes created so far. -/
structure NodeSupply where
  heap : Heap
  created : Nat

/-- `split`, `promoted_key` and `right` are present together. -/
structure InsertResult where
  split : Option (Int32 × BpNode)
  insertedNew : Bool

/-- `node_create`: the new node's address, or nothing. -/
def nodeCreate (supply : NodeSupply) : Option Nat × NodeSupply :=
  match supply.heap.request sizeofBpNode with
  | (true, heap) => (some supply.created, { heap := heap, created := supply.created + 1 })
  | (false, heap) => (none, { supply with heap := heap })

/-- `leaf_find_position`: the first position whose key is not below `key`. -/
def leafFindPosition (key : Int32) : List (Int32 × Nat) → Nat
  | [] => 0
  | entry :: entries => if entry.1 < key then leafFindPosition key entries + 1 else 0

/-- `leaf_insert`. -/
def leafInsert (address : Nat) (entries : List (Int32 × Nat)) (next : Option Nat)
    (key : Int32) (value : Nat) (supply : NodeSupply) : BpNode × InsertResult × NodeSupply :=
  let pos := leafFindPosition key entries
  if (entries[pos]?).any (·.1 == key) then
    (.leaf address (entries.set pos (key, value)) next,
      { split := none, insertedNew := false }, supply)
  else if entries.length < bptreeMaxKeys then
    (.leaf address (entries.insertIdx pos (key, value)) next,
      { split := none, insertedNew := true }, supply)
  else
    let temp := entries.insertIdx pos (key, value)
    match nodeCreate supply with
    | (none, supply) =>
        (.leaf address entries next, { split := none, insertedNew := false }, supply)
    | (some rightAddress, supply) =>
        let leftCount := (bptreeMaxKeys + 1) / 2
        let rightEntries := temp.drop leftCount
        let promotedKey := (rightEntries.headD (key, value)).1
        (.leaf address (temp.take leftCount) (some rightAddress),
          { split := some (promotedKey, .leaf rightAddress rightEntries next)
            insertedNew := true },
          supply)

/-- `child_index_for_key`: the number of leading separators not above `key`. -/
def childIndexForKey (key : Int32) : List (Int32 × BpNode) → Nat
  | [] => 0
  | slot :: rest => if slot.1 ≤ key then childIndexForKey key rest + 1 else 0

/-- `node->children[index]`. -/
def childAt (first : BpNode) : List (Int32 × BpNode) → Nat → BpNode
  | slot :: rest, index + 1 => childAt slot.2 rest index
  | _, _ => first

/-- The children after `node->children[index]` was rewritten through its pointer. -/
def setChild (first : BpNode) : List (Int32 × BpNode) → Nat → BpNode →
    BpNode × List (Int32 × BpNode)
  | slot :: rest, index + 1, child =>
      let (next, rest) := setChild slot.2 rest index child
      (first, (slot.1, next) :: rest)
  | rest, _, child => (child, rest)

/-- A child is smaller than its node, for the recursion. -/
theorem sizeOf_childAt_le (first : BpNode) (rest : List (Int32 × BpNode)) (index : Nat) :
    sizeOf (childAt first rest index) ≤ sizeOf first + sizeOf rest := by
  induction rest generalizing first index with
  | nil => simp only [childAt, Nat.le_add_right]
  | cons slot rest ih =>
      obtain ⟨key, child⟩ := slot
      cases index with
      | zero => simp only [childAt, Nat.le_add_right]
      | succ index =>
          have inner := ih child index
          simp only [childAt, List.cons.sizeOf_spec, Prod.mk.sizeOf_spec] at *
          omega

/-- The part of `node_insert` after the child was split: take in the promoted
key and the right half, splitting the node when it is full. -/
def absorbSplit (first : BpNode) (rest : List (Int32 × BpNode)) (childIdx : Nat)
    (promotedKey : Int32) (right : BpNode) (insertedNew : Bool) (supply : NodeSupply) :
    BpNode × InsertResult × NodeSupply :=
  let temp := rest.insertIdx childIdx (promotedKey, right)
  if rest.length < bptreeMaxKeys then
    (.internal first temp, { split := none, insertedNew := insertedNew }, supply)
  else
    match nodeCreate supply with
    -- The child keeps its left half; the right half is linked from nowhere.
    | (none, supply) =>
        (.internal first rest, { split := none, insertedNew := false }, supply)
    | (some _, supply) =>
        let mid := (bptreeMaxKeys + 1) / 2
        let (middleKey, middleChild) := (temp.drop mid).headD (promotedKey, right)
        (.internal first (temp.take mid),
          { split := some (middleKey, .internal middleChild (temp.drop (mid + 1)))
            insertedNew := insertedNew },
          supply)

/-- `node_insert`. -/
def nodeInsert (node : BpNode) (key : Int32) (value : Nat) (supply : NodeSupply) :
    BpNode × InsertResult × NodeSupply :=
  match node with
  | .leaf address entries next => leafInsert address entries next key value supply
  | .internal first rest =>
      let childIdx := childIndexForKey key rest
      match nodeInsert (childAt first rest childIdx) key value supply with
      | (child, childResult, supply) =>
        let (first, rest) := setChild first rest childIdx child
        match childResult.split with
        | none => (.internal first rest, childResult, supply)
        | some (promotedKey, right) =>
            absorbSplit first rest childIdx promotedKey right childResult.insertedNew supply
termination_by sizeOf node
decreasing_by
  have smaller := sizeOf_childAt_le first rest (childIndexForKey key rest)
  simp only [BpNode.internal.sizeOf_spec]
  omega

/-- The descent and the final lookup of `bptree_search`. -/
def nodeSearch (node : BpNode) (key : Int32) : Option Nat :=
  match node with
  | .leaf _ entries _ =>
      (entries[leafFindPosition key entries]?).bind fun entry =>
        if entry.1 = key then some entry.2 else none
  | .internal first rest => nodeSearch (childAt first rest (childIndexForKey key rest)) key
termination_by sizeOf node
decreasing_by
  have smaller := sizeOf_childAt_le first rest (childIndexForKey key rest)
  simp only [BpNode.internal.sizeOf_spec]
  omega

/-- `created` counts the nodes ever created, from which addresses are drawn. -/
structure BPlusTree where
  root : Option BpNode
  size : Nat
  created : Nat

/-- `bptree_init`. -/
def bptreeInit : BPlusTree := { root := none, size := 0, created := 0 }

/-- The root to insert into, created when the tree is still empty. -/
def ensureRoot (tree : BPlusTree) (heap : Heap) : Option BpNode × NodeSupply :=
  match tree.root with
  | some root => (some root, { heap := heap, created := tree.created })
  | none =>
      match nodeCreate { heap := heap, created := tree.created } with
      | (none, supply) => (none, supply)
      | (some address, supply) => (some (.leaf address [] none), supply)

/-- `bptree_insert`: the returned flag, the tree and the heap after it. -/
def bptreeInsert (tree : BPlusTree) (key : Int32) (value : Nat) (heap : Heap) :
    Bool × BPlusTree × Heap :=
  match ensureRoot tree heap with
  | (none, supply) => (false, tree, supply.heap)
  | (some root, supply) =>
      match nodeInsert root key value supply with
      | (root, result, supply) =>
        let size := if result.insertedNew then tree.size + 1 else tree.size
        match result.split with
        | none =>
            (true, { root := some root, size := size, created := supply.created }, supply.heap)
        | some (promotedKey, right) =>
            match nodeCreate supply with
            | (none, supply) =>
                (false, { root := some root, size := size, created := supply.created }, supply.heap)
            | (some _, supply) =>
                (true,
                  { root := some (.internal root [(promotedKey, right)])
                    size := size
                    created := supply.created },
                  supply.heap)

/-- `bptree_search`: the value found, if any. -/
def bptreeSearch (tree : BPlusTree) (key : Int32) : Option Nat :=
  tree.root.bind fun root => nodeSearch root key

end MiniDbms.Bptree
