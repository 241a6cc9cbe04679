import MiniDbms.Bptree.StoredTree
import MiniDbms.Foundation.Freeing

/-! # Destroying the B+ tree

`node_destroy` frees the nodes below a node and then the node. After any insertions,
`bptree_destroy` frees every node that the tree links to, each once, and reads none that it has
freed; those are all nodes ever created unless an insertion was refused one
(`MiniDbms.Bptree.Memory.bptreeDestroy_frees`).
-/

namespace MiniDbms.Bptree

open Foundation

/-- The number of nodes of a subtree. -/
def BpNode.nodeCount : BpNode → Nat
  | .leaf _ _ _ => 1
  | .internal first rest => 1 + first.nodeCount + (rest.map fun slot => slot.2.nodeCount).sum
termination_by node => sizeOf node
decreasing_by
  · simp only [BpNode.internal.sizeOf_spec]
    omega
  · have inside := List.sizeOf_lt_of_mem ‹slot ∈ rest›
    obtain ⟨separator, child⟩ := slot
    simp only [Prod.mk.sizeOf_spec, BpNode.internal.sizeOf_spec] at *
    omega

/-- The number of nodes of a row of children. -/
def rowCount (first : BpNode) (rest : List (Int32 × BpNode)) : Nat :=
  first.nodeCount + (rest.map fun slot => slot.2.nodeCount).sum

theorem nodeCount_leaf (address : Nat) (entries : List (Int32 × Nat)) (next : Option Nat) :
    (BpNode.leaf address entries next).nodeCount = 1 := by
  rw [BpNode.nodeCount]

theorem nodeCount_internal (first : BpNode) (rest : List (Int32 × BpNode)) :
    (BpNode.internal first rest).nodeCount = rowCount first rest + 1 := by
  rw [BpNode.nodeCount, rowCount]
  omega

theorem rowCount_cons (first : BpNode) (slot : Int32 × BpNode) (rest : List (Int32 × BpNode)) :
    rowCount first (slot :: rest) = first.nodeCount + rowCount slot.2 rest := by
  simp only [rowCount, List.map_cons, List.sum_cons]

theorem rowCount_append (first : BpNode) (front back : List (Int32 × BpNode))
    (slot : Int32 × BpNode) :
    rowCount first (front ++ slot :: back) = rowCount first front + rowCount slot.2 back := by
  simp only [rowCount, List.map_append, List.map_cons, List.sum_append, List.sum_cons]
  omega

/-- A row with one child replaced. -/
theorem rowCount_setChild (first child : BpNode) (rest : List (Int32 × BpNode)) (index : Nat) :
    rowCount (setChild first rest index child).1 (setChild first rest index child).2 +
        (childAt first rest index).nodeCount =
      rowCount first rest + child.nodeCount := by
  induction rest generalizing first index with
  | nil => simp only [setChild, childAt, rowCount, List.map_nil, List.sum_nil]; omega
  | cons slot rest ih =>
      cases index with
      | zero => simp only [setChild, childAt, rowCount_cons]; omega
      | succ index =>
          have later := ih slot.2 index
          simp only [setChild, childAt, rowCount_cons]
          omega

/-- A row with one more child. -/
theorem rowCount_insertIdx (first : BpNode) {rest : List (Int32 × BpNode)} {index : Nat}
    (position : index ≤ rest.length) (slot : Int32 × BpNode) :
    rowCount first (rest.insertIdx index slot) = rowCount first rest + slot.2.nodeCount := by
  have counts := ((List.perm_insertIdx slot rest position).map fun slot =>
    slot.2.nodeCount).sum_eq
  rw [List.map_cons, List.sum_cons] at counts
  simp only [rowCount, counts]
  omega

/-- The number of nodes that an insertion leaves below a node and its new right half. -/
def countAfter (after : BpNode) (result : InsertResult) : Nat :=
  after.nodeCount + (result.split.map fun half => half.2.nodeCount).getD 0

/-- A node that is created is counted. -/
theorem created_of_nodeCreate {supply after : NodeSupply} {address : Nat}
    (created : nodeCreate supply = (some address, after)) :
    after.created = supply.created + 1 := by
  unfold nodeCreate at created
  rcases answer : supply.heap.request sizeofBpNode with ⟨_ | _, heap⟩ <;>
    rw [answer] at created <;> cases created
  rfl

/-- An insertion into a leaf creates the nodes that it links. -/
theorem leafInsert_count {address : Nat} {entries : List (Int32 × Nat)} {next : Option Nat}
    {key : Int32} {value : Nat} {supply : NodeSupply}
    (granted : (leafInsert address entries next key value supply).2.2.heap.refused = false) :
    countAfter (leafInsert address entries next key value supply).1
        (leafInsert address entries next key value supply).2.1 + supply.created =
      1 + (leafInsert address entries next key value supply).2.2.created := by
  unfold leafInsert at granted ⊢
  by_cases present : (entries[leafFindPosition key entries]?).any (·.1 == key) = true
  · simp only [present, ↓reduceIte, countAfter, nodeCount_leaf, Option.map_none, Option.getD_none]
  · by_cases room : entries.length < bptreeMaxKeys
    · simp only [present, room, Bool.false_eq_true, ↓reduceIte, countAfter, nodeCount_leaf,
        Option.map_none, Option.getD_none]
    · simp only [present, room, Bool.false_eq_true, ↓reduceIte] at granted ⊢
      rcases ran : nodeCreate supply with ⟨created, after⟩
      rw [ran] at granted
      cases created with
      | none =>
          obtain ⟨_, _, impossible⟩ := nodeCreate_granted ran granted
          cases impossible
      | some rightAddress =>
          have more := created_of_nodeCreate ran
          simp only [countAfter, nodeCount_leaf, Option.map_some, Option.getD_some]
          omega

/-- So does an insertion into an internal node. -/
theorem absorbSplit_count {first right : BpNode} {rest : List (Int32 × BpNode)} {childIdx : Nat}
    {promotedKey : Int32} {insertedNew : Bool} {supply : NodeSupply}
    (position : childIdx ≤ rest.length)
    (granted : (absorbSplit first rest childIdx promotedKey right insertedNew
      supply).2.2.heap.refused = false) :
    countAfter (absorbSplit first rest childIdx promotedKey right insertedNew supply).1
        (absorbSplit first rest childIdx promotedKey right insertedNew supply).2.1 +
          supply.created =
      rowCount first rest + right.nodeCount + 1 +
        (absorbSplit first rest childIdx promotedKey right insertedNew supply).2.2.created := by
  have row := rowCount_insertIdx first position (promotedKey, right)
  rcases absorbSplit_cases position granted with
    ⟨_, same⟩ | ⟨_, front, middle, behind, address, after, cut, _, ran, same⟩ <;> rw [same]
  · simp only [countAfter, nodeCount_internal, row, Option.map_none, Option.getD_none]
  · have more := created_of_nodeCreate ran
    rw [cut, rowCount_append] at row
    simp only [countAfter, nodeCount_internal, Option.map_some, Option.getD_some] at row ⊢
    omega

/-- **An insertion loses no node** while none is refused. -/
theorem nodeInsert_count (node : BpNode) {key : Int32} {value : Nat} (supply : NodeSupply)
    (granted : (nodeInsert node key value supply).2.2.heap.refused = false) :
    countAfter (nodeInsert node key value supply).1 (nodeInsert node key value supply).2.1 +
        supply.created =
      node.nodeCount + (nodeInsert node key value supply).2.2.created := by
  fun_induction nodeInsert node key value supply with
  | case1 address entries next =>
      rw [nodeCount_leaf]
      exact leafInsert_count granted
  | case2 first rest childIdx child childResult after ran first' rest' set whole ih =>
      rw [ran] at ih
      have inner := ih granted
      have row := rowCount_setChild first child rest childIdx
      rw [set] at row
      simp only [countAfter, whole, Option.map_none, Option.getD_none, nodeCount_internal] at *
      omega
  | case3 first rest childIdx child childResult after ran first' rest' set promoted right split
      ih =>
      rw [ran] at ih
      have inner := ih (absorbSplit_granted granted)
      have row := rowCount_setChild first child rest childIdx
      have position := childIndexForKey_le key rest
      have length := length_setChild first rest childIdx child
      rw [set] at row length
      have absorbed := @absorbSplit_count first' right rest' childIdx promoted
        childResult.insertedNew after (length ▸ position) granted
      simp only [countAfter, split, Option.map_some, Option.getD_some, nodeCount_internal] at *
      omega

/-- The tree has all nodes ever created for it. -/
def Counted (tree : BPlusTree) : Prop :=
  tree.created = (tree.root.map BpNode.nodeCount).getD 0

/-- An insertion that was refused nothing links every node that it creates. -/
theorem Counted.insert {tree : BPlusTree} (counted : Counted tree) {key : Int32} {value : Nat}
    {heap : Heap} (granted : (bptreeInsert tree key value heap).2.2.refused = false) :
    Counted (bptreeInsert tree key value heap).2.1 := by
  have start : ∀ root supply, ensureRoot tree heap = (some root, supply) →
      supply.created = root.nodeCount := by
    intro root supply rooted
    unfold Counted at counted
    rcases ensureRoot_cases rooted with ⟨_, present, rfl⟩ | ⟨absent, created, ran, isLeaf⟩
    · rwa [← present, Option.map_some, Option.getD_some] at counted
    · obtain ⟨address, rfl, rfl⟩ := Option.map_eq_some_iff.mp isLeaf.symm
      rw [absent, Option.map_none, Option.getD_none] at counted
      rw [created_of_nodeCreate ran, nodeCount_leaf]
      exact congrArg (· + 1) counted
  unfold Counted
  cases grantedInsert granted with
  | kept root node insertedNew supply after rooted ran granted returned =>
      have count := @nodeInsert_count root key value supply
      have before := start root supply rooted
      rw [ran] at count
      have count := count granted
      simp only [returned, countAfter, Option.map_none, Option.map_some, Option.getD_none,
        Option.getD_some] at count ⊢
      omega
  | grown root node right promoted insertedNew supply after final address rooted ran granted created
      returned =>
      have count := @nodeInsert_count root key value supply
      have before := start root supply rooted
      have more := created_of_nodeCreate created
      rw [ran] at count
      have count := count granted
      simp only [returned, countAfter, Option.map_some, Option.getD_some, nodeCount_internal,
        rowCount, List.map_cons, List.map_nil, List.sum_cons, List.sum_nil] at count ⊢
      omega

theorem insertAll_counted (writes : List (Int32 × Nat)) {heap : Heap}
    (granted : (insertAll writes heap).2.1.refused = false) :
    Counted (insertAll writes heap).1 :=
  insertAll_induction (show Counted bptreeInit from rfl)
    (fun _ _ _ _ counted granted => counted.insert granted) writes granted

namespace Memory

/-- `node_destroy`, on at most `fuel` levels. -/
def nodeDestroy : Nat → Option Nat → Arena Node → Option (Arena Node)
  | _, none, arena => return arena
  | 0, some _, _ => none
  | fuel + 1, some address, arena => do
      let node ← arena.load address
      if node.isLeaf then arena.free address
      else
        let arena ← countUp (fun i arena => do
            let node ← arena.load address
            nodeDestroy fuel (← node.child i) arena) (node.numKeys + 1) 0 arena
        arena.free address

/-- `bptree_destroy`. -/
def bptreeDestroy (tree : BPlusTree) (arena : Arena Node) : Option (BPlusTree × Arena Node) := do
  let arena ← nodeDestroy arena.cells.length tree.root arena
  return ({ root := none, size := 0 }, arena)

/-- The memory of a tree that has not been destroyed. -/
def Store.arena (store : Store) : Arena Node := { cells := store.nodes, freed := [] }

/-- `Linked nodes address target`: child pointers lead from `address` to `target`. -/
inductive Linked (nodes : List Node) : Nat → Nat → Prop where
  | here (address : Nat) : Linked nodes address address
  | down {address child target i : Nat} {node : Node} (present : nodes[address]? = some node)
      (internal : node.isLeaf = false) (pointer : node.child i = some (some child))
      (further : Linked nodes child target) : Linked nodes address target

/-- The child pointers of an internal node are those of its row. -/
theorem HoldsRow.child_iff {separators : List Int32} {pointers : List Nat} {node : Node}
    (holds : HoldsRow separators pointers node) (arity : pointers.length = separators.length + 1)
    {i child : Nat} : node.child i = some (some child) ↔ pointers[i]? = some child := by
  constructor
  · intro pointer
    have inside : i < pointers.length := by
      unfold Node.child at pointer
      split at pointer
      · next below =>
          have counted : node.numKeys = separators.length := holds.count
          omega
      · cases pointer
    have present : (pointers.map some)[i]? = some (some pointers[i]) := by
      rw [List.getElem?_map, List.getElem?_eq_getElem inside, Option.map_some]
    rw [holds.child arity present] at pointer
    rw [List.getElem?_eq_getElem inside]
    exact Option.some.inj pointer
  · intro present
    apply holds.child arity
    rw [List.getElem?_map, present, Option.map_some]

/-- As many children as the row has branches. -/
theorem row_arity {first : BpNode} {rest : List (Int32 × BpNode)} {row : List Branch}
    (children : row.map Branch.node = first :: rest.map Prod.snd) :
    (row.map Branch.address).length = (rest.map Prod.fst).length + 1 := by
  have counted := congrArg List.length children
  rw [List.length_map, List.length_cons, List.length_map] at counted
  rw [List.length_map, List.length_map, counted]

/-- A stored branch lives in the nodes that its root links to. -/
theorem Stored.mem_footprint_iff {nodes : List Node} {branch : Branch}
    (stored : Stored nodes branch) {target : Nat} :
    target ∈ branch.footprint ↔ Linked nodes branch.address target := by
  induction stored with
  | @leaf address entries next leaf present holds =>
      rw [List.mem_singleton]
      constructor
      · rintro rfl
        exact .here _
      · intro linked
        cases linked with
        | here => rfl
        | down found internal pointer further =>
            cases present.symm.trans found
            exact absurd (holds.isLeaf.symm.trans internal) (fun impossible => by cases impossible)
  | @internal address first rest row node present holds children stored apart ih =>
      have arity := row_arity children
      rw [List.mem_cons, List.mem_flatMap]
      constructor
      · rintro (rfl | ⟨child, inRow, inside⟩)
        · exact .here _
        · obtain ⟨i, found⟩ := List.mem_iff_getElem?.mp inRow
          have pointer : node.child i = some (some child.address) := by
            rw [holds.child_iff arity, List.getElem?_map, found, Option.map_some]
          exact .down present holds.isLeaf pointer ((ih child inRow).mp inside)
      · intro linked
        cases linked with
        | here => exact .inl rfl
        | down found internal pointer further =>
            cases present.symm.trans found
            have named := (holds.child_iff arity).mp pointer
            rw [List.getElem?_map] at named
            obtain ⟨child, inRow, rfl⟩ := Option.map_eq_some_iff.mp named
            have member := List.mem_of_getElem? inRow
            exact .inr ⟨child, member, (ih child member).mpr further⟩

/-- **`node_destroy` in memory.** The induction is on the levels that are left; the rounds of the
loop free the children one after another. -/
theorem nodeDestroy_frees {fuel : Nat} {branch : Branch} {arena : Arena Node}
    (stored : Stored arena.cells branch) (enough : branch.footprint.length ≤ fuel)
    (there : ∀ address ∈ branch.footprint, address ∉ arena.freed) :
    ∃ after, nodeDestroy fuel (some branch.address) arena = some after ∧
      Frees arena branch.footprint after := by
  induction fuel generalizing branch arena with
  | zero => exact absurd enough (Nat.not_le.mpr stored.footprint_pos)
  | succ fuel ih =>
      cases stored with
      | @leaf address entries next leaf present holds =>
          have unfreed := there address List.mem_cons_self
          have loaded := (arena.load_of_there unfreed).trans present
          rw [nodeDestroy, loaded]
          simp only [holds.isLeaf, Option.bind_eq_bind, Option.bind_some, ↓reduceIte]
          exact arena.free_of_there unfreed (List.getElem?_eq_some_iff.mp present).1
      | @internal address first rest row node present holds children stored apart =>
          have arity := row_arity children
          have unfreed := there address List.mem_cons_self
          have loaded := (arena.load_of_there unfreed).trans present
          have rows : (row.map Branch.footprint).length = node.numKeys + 1 := by
            rw [show node.numKeys = _ from holds.count, ← arity, List.length_map, List.length_map]
          obtain ⟨outside, separate⟩ := List.nodup_cons.mp apart
          rw [List.flatMap_def] at outside separate
          have round : ∀ i footprint state, (row.map Branch.footprint)[i]? = some footprint →
              Frees arena ((row.map Branch.footprint).take i).flatten state →
              ∃ next, (do
                  let node ← state.load address
                  nodeDestroy fuel (← node.child i) state) = some next ∧
                Frees state footprint next := by
            intro i footprint state found before
            obtain ⟨front, back, cut, length⟩ := exists_around found
            have passed : (row.map Branch.footprint).take i = front := by
              rw [cut, ← length, List.take_left']
              rfl
            rw [passed] at before
            rw [cut, List.flatten_append, List.flatten_cons, List.mem_append, List.mem_append,
              not_or, not_or] at outside
            rw [cut, List.flatten_append, List.flatten_cons] at separate
            have apart := (List.nodup_append.mp separate).2.2
            rw [List.getElem?_map] at found
            obtain ⟨child, inRow, rfl⟩ := Option.map_eq_some_iff.mp found
            have member := List.mem_of_getElem? inRow
            have pointer : node.child i = some (some child.address) := by
              rw [holds.child_iff arity, List.getElem?_map, inRow, Option.map_some]
            rw [before.load outside.1, loaded]
            simp only [Option.bind_eq_bind, Option.bind_some, pointer]
            apply ih (before.cells ▸ stored child member)
            · have fits : child.footprint.length ≤ (row.flatMap Branch.footprint).length := by
                rw [List.flatMap_def, cut]
                simp only [List.flatten_append, List.flatten_cons, List.length_append]
                omega
              exact fits.trans (Nat.le_of_succ_le_succ enough)
            · intro inner inside
              apply before.notMem
              · exact there inner
                  (List.mem_cons_of_mem _ (List.mem_flatMap.mpr ⟨child, member, inside⟩))
              · exact fun early => apart inner early inner (List.mem_append_left _ inside) rfl
          obtain ⟨middle, ran, frees⟩ := countUp_frees arena round
          have last := frees.notMem unfreed outside
          have created : address < middle.cells.length := by
            rw [frees.cells]
            exact (List.getElem?_eq_some_iff.mp present).1
          obtain ⟨after, freed, final⟩ := middle.free_of_there last created
          refine ⟨after, ?_, (frees.trans final).perm ?_⟩
          · rw [rows] at ran
            rw [nodeDestroy, loaded]
            simp only [holds.isLeaf, Bool.false_eq_true, ↓reduceIte, Option.bind_eq_bind,
              Option.bind_some] at ran ⊢
            rw [ran, Option.bind_some, freed]
          · rw [← List.flatMap_def]
            exact List.perm_append_comm

/-- A branch has as many nodes as its tree. -/
theorem Stored.length_footprint {nodes : List Node} {branch : Branch}
    (stored : Stored nodes branch) : branch.footprint.length = branch.node.nodeCount := by
  induction stored with
  | leaf present holds => rw [nodeCount_leaf, List.length_singleton]
  | @internal address first rest row node present holds children stored apart ih =>
      have counts : row.map (fun branch => branch.footprint.length) =
          (row.map Branch.node).map BpNode.nodeCount := by
        rw [List.map_map]
        exact List.map_congr_left ih
      rw [List.length_cons, List.length_flatMap, counts, children, nodeCount_internal]
      simp only [List.map_cons, List.map_map, List.sum_cons, rowCount]
      rfl

/-- **The tree is destroyed.** After any sequence of insertions, whatever the allocator refuses,
`bptree_destroy` has a result: no node is read or freed after it was freed, and no null pointer
is followed. It leaves an empty tree, and frees exactly the nodes that the root links to, each of
them once. If no insertion was refused a node, those are all nodes that were ever created. -/
theorem bptreeDestroy_frees (writes : List (Int32 × Nat)) (heap : Heap) :
    ∃ tree store all, insertAll writes heap = some (tree, store, all) ∧
      ∃ after, bptreeDestroy tree store.arena = some (bptreeInit, after) ∧
        after.cells = store.nodes ∧ after.freed.Nodup ∧
        (∀ address, address ∈ after.freed ↔
          ∃ root, tree.root = some root ∧ Linked store.nodes root address) ∧
        (store.heap.refused = false → after.freed.Perm (List.range store.nodes.length)) := by
  obtain ⟨tree, store, ran, keeps, sameHeap⟩ := insertAll_keeps writes heap
  refine ⟨tree, store, _, ran, ?_⟩
  have rooted := keeps.root
  have counted : store.heap.refused = false → Counted (Bptree.insertAll writes heap).1 :=
    fun granted => insertAll_counted writes (sameHeap ▸ granted)
  have created : (Bptree.insertAll writes heap).1.created = store.nodes.length := keeps.created
  unfold Counted at counted
  unfold bptreeDestroy
  generalize (Bptree.insertAll writes heap).1.root = node at rooted counted
  generalize tree.root = address at rooted ⊢
  cases rooted with
  | none =>
      refine ⟨store.arena, by rw [nodeDestroy]; rfl, rfl, List.nodup_nil, ?_, ?_⟩
      · intro address
        constructor
        · intro member
          cases member
        · intro ⟨root, impossible, _⟩
          cases impossible
      · intro granted
        have empty := counted granted
        rw [created, Option.map_none, Option.getD_none] at empty
        rw [empty]
        exact .refl _
  | @some address node stored =>
      obtain ⟨footprint, stored⟩ := stored
      obtain ⟨after, destroyed, cells, freed⟩ :=
        @nodeDestroy_frees _ _ store.arena stored stored.length_le
          (fun _ _ member => List.not_mem_nil member)
      have nodup : after.freed.Nodup := freed.nodup_iff.mpr stored.nodup
      have reached : ∀ target, target ∈ after.freed ↔ target ∈ footprint := fun _ => freed.mem_iff
      refine ⟨after, ?_, cells, nodup, ?_, ?_⟩
      · rw [show store.arena.cells.length = store.nodes.length from rfl, destroyed]
        rfl
      · intro target
        rw [reached, stored.mem_footprint_iff]
        constructor
        · intro linked
          exact ⟨address, rfl, linked⟩
        · intro ⟨root, same, linked⟩
          cases same
          exact linked
      · intro granted
        have whole := counted granted
        rw [created, Option.map_some, Option.getD_some, ← stored.length_footprint] at whole
        have below : after.freed ⊆ List.range store.nodes.length := fun target member =>
          List.mem_range.mpr (stored.lt_length target ((reached target).mp member))
        apply (List.subperm_of_subset nodup below).perm_of_length_le
        rw [List.length_range, whole, freed.length_eq]
        exact Nat.le_refl _

end Memory

end MiniDbms.Bptree
