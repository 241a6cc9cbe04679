import MiniDbms.Bptree.Balance
import MiniDbms.Foundation.LinkedCells

/-! # The chain of leaves

The leaves of the tree, from left to right, are linked cells. An insertion changes the
entries of one leaf or splits it, at whatever level the nodes above it are regrouped
(`MiniDbms.Bptree.nodeInsert_rewired`), so the pointers always lead through all leaves in
their order (`MiniDbms.Bptree.insertAll_leafChain`).
-/

namespace MiniDbms.Bptree

open Foundation

/-- A leaf, which is pointed to by its left neighbour. -/
abbrev Leaf : Type := LinkedCell Nat (List (Int32 × Nat))

/-- The leaves below a node, from left to right. -/
def BpNode.leaves : BpNode → List Leaf
  | .leaf address entries next => [⟨address, entries, next⟩]
  | .internal first rest => first.leaves ++ rest.flatMap fun slot => slot.2.leaves
termination_by node => sizeOf node
decreasing_by
  · simp only [BpNode.internal.sizeOf_spec]
    omega
  · have inside := List.sizeOf_lt_of_mem ‹slot ∈ rest›
    obtain ⟨separator, child⟩ := slot
    simp only [Prod.mk.sizeOf_spec, BpNode.internal.sizeOf_spec] at *
    omega

/-- The leaf at the end of `children[0]`, `children[0]` and so on. -/
def BpNode.leftmost : BpNode → Leaf
  | .leaf address entries next => ⟨address, entries, next⟩
  | .internal first _ => first.leftmost

/-- The leaves below a row of children. -/
def rowLeaves (first : BpNode) (rest : List (Int32 × BpNode)) : List Leaf :=
  first.leaves ++ rest.flatMap fun slot => slot.2.leaves

@[simp] theorem leaves_leaf (address : Nat) (entries : List (Int32 × Nat)) (next : Option Nat) :
    (BpNode.leaf address entries next).leaves = [⟨address, entries, next⟩] := by
  rw [BpNode.leaves]

@[simp] theorem leaves_internal (first : BpNode) (rest : List (Int32 × BpNode)) :
    (BpNode.internal first rest).leaves = rowLeaves first rest := by
  rw [BpNode.leaves, rowLeaves]

@[simp] theorem rowLeaves_nil (first : BpNode) : rowLeaves first [] = first.leaves := by
  simp only [rowLeaves, List.flatMap_nil, List.append_nil]

@[simp] theorem rowLeaves_cons (first : BpNode) (slot : Int32 × BpNode)
    (rest : List (Int32 × BpNode)) :
    rowLeaves first (slot :: rest) = first.leaves ++ rowLeaves slot.2 rest := by
  simp only [rowLeaves, List.flatMap_cons]

theorem rowLeaves_append (first : BpNode) (front : List (Int32 × BpNode))
    (slot : Int32 × BpNode) (back : List (Int32 × BpNode)) :
    rowLeaves first (front ++ slot :: back) =
      rowLeaves first front ++ rowLeaves slot.2 back := by
  simp only [rowLeaves, List.flatMap_append, List.flatMap_cons, List.append_assoc]

/-- The leaves hold the entries. -/
theorem flatMap_leaves (node : BpNode) : node.leaves.flatMap (·.item) = node.entries := by
  fun_induction BpNode.leaves node with
  | case1 address entries next => simp
  | case2 first rest ihFirst ihRest =>
      rw [List.flatMap_append, ihFirst, List.flatMap_assoc, entries_internal, rowEntries]
      congr 1
      exact List.flatMap_congr ihRest

/-- The first leaf of a node is its leftmost one. -/
theorem head?_leaves (node : BpNode) : node.leaves.head? = some node.leftmost := by
  fun_induction BpNode.leftmost node with
  | case1 address entries next => simp
  | case2 first rest ih =>
      rw [leaves_internal, rowLeaves, List.head?_append, ih, Option.some_or]

/-- The leaves of a node after an insertion, with those of the right half split off it. -/
def leavesAfter (node : BpNode) (result : InsertResult) : List Leaf :=
  node.leaves ++ result.split.elim [] fun split => split.2.leaves

/-- The addresses of the nodes created on the way from one supply to another. -/
def CreatedBetween (before after : NodeSupply) (address : Nat) : Prop :=
  before.created ≤ address ∧ address < after.created

/-- A new node is numbered behind the ones before it. -/
theorem nodeCreate_created {supply after : NodeSupply} {created : Option Nat}
    (ran : nodeCreate supply = (created, after)) :
    supply.created ≤ after.created ∧
      ∀ address, created = some address → CreatedBetween supply after address := by
  unfold nodeCreate at ran
  split at ran
  · cases ran
    refine ⟨Nat.le_succ _, ?_⟩
    rintro address ⟨⟩
    exact ⟨Nat.le_refl _, Nat.lt_succ_self _⟩
  · cases ran
    exact ⟨Nat.le_refl _, nofun⟩

/-- A leaf that splits is followed by its new half. -/
theorem leafInsert_rewired {address : Nat} {entries : List (Int32 × Nat)} {next : Option Nat}
    {key : Int32} {value : Nat} {supply : NodeSupply} :
    let after := leafInsert address entries next key value supply
    supply.created ≤ after.2.2.created ∧
      LinkedCell.Rewired (CreatedBetween supply after.2.2) [⟨address, entries, next⟩]
        (leavesAfter after.1 after.2.1) := by
  simp only [leafInsert]
  split
  · refine ⟨Nat.le_refl _, ?_⟩
    simp only [leavesAfter, leaves_leaf, Option.elim_none, List.append_nil]
    exact .replaced [] _ [] _
  · split
    · refine ⟨Nat.le_refl _, ?_⟩
      simp only [leavesAfter, leaves_leaf, Option.elim_none, List.append_nil]
      exact .replaced [] _ [] _
    · rcases ran : nodeCreate supply with ⟨_ | rightAddress, after⟩
      · refine ⟨(nodeCreate_created ran).1, ?_⟩
        simp only [leavesAfter, leaves_leaf, Option.elim_none, List.append_nil]
        exact .replaced [] _ [] _
      · obtain ⟨grown, created⟩ := nodeCreate_created ran
        refine ⟨grown, ?_⟩
        simp only [leavesAfter, leaves_leaf, Option.elim_some]
        exact .split [] ⟨address, entries, next⟩ [] _ _ (created rightAddress rfl)

/-- What stands left and right of the child entered stays where it is. -/
theorem rowLeaves_focus (first : BpNode) {rest : List (Int32 × BpNode)} {index : Nat}
    (inside : index ≤ rest.length) :
    ∃ below above, rowLeaves first rest = below ++ ((childAt first rest index).leaves ++ above) ∧
      ∀ child,
        rowLeaves (setChild first rest index child).1 (setChild first rest index child).2 =
          below ++ (child.leaves ++ above) ∧
        ∀ separator right,
          rowLeaves (setChild first rest index child).1
              ((setChild first rest index child).2.insertIdx index (separator, right)) =
            below ++ (child.leaves ++ right.leaves ++ above) := by
  induction rest generalizing first index with
  | nil =>
      obtain rfl : index = 0 := Nat.le_zero.mp inside
      refine ⟨[], [], ?_, fun child => ⟨?_, fun separator right => ?_⟩⟩
      · simp [childAt]
      · simp [setChild]
      · simp [setChild]
  | cons slot rest ih =>
      cases index with
      | zero =>
          refine ⟨[], rowLeaves slot.2 rest, ?_, fun child => ⟨?_, fun separator right => ?_⟩⟩
          · simp [childAt]
          · simp [setChild]
          · simp [setChild]
      | succ index =>
          obtain ⟨below, above, whole, changed⟩ := ih slot.2 (Nat.le_of_succ_le_succ inside)
          refine ⟨first.leaves ++ below, above, ?_, fun child => ⟨?_, fun separator right => ?_⟩⟩
          · rw [rowLeaves_cons, whole, childAt, List.append_assoc]
          · simp only [setChild, rowLeaves_cons, (changed child).1, List.append_assoc]
          · simp only [setChild, List.insertIdx_succ_cons, rowLeaves_cons,
              (changed child).2 separator right, List.append_assoc]

/-- Taking in the right half of a child moves no leaf. -/
theorem absorbSplit_leaves {first : BpNode} {rest : List (Int32 × BpNode)} {childIdx : Nat}
    {promotedKey : Int32} {right : BpNode} {insertedNew : Bool} {supply : NodeSupply}
    (position : childIdx ≤ rest.length)
    (granted : (absorbSplit first rest childIdx promotedKey right insertedNew
      supply).2.2.heap.refused = false) :
    let after := absorbSplit first rest childIdx promotedKey right insertedNew supply
    supply.created ≤ after.2.2.created ∧
      leavesAfter after.1 after.2.1 =
        rowLeaves first (rest.insertIdx childIdx (promotedKey, right)) := by
  rcases absorbSplit_cases position granted with
    ⟨_, same⟩ | ⟨_, left, middle, behind, address, after, cut, _, created, same⟩ <;> rw [same]
  · simp only [leavesAfter, leaves_internal, Option.elim_none, List.append_nil]
    exact ⟨Nat.le_refl _, trivial⟩
  · refine ⟨(nodeCreate_created created).1, ?_⟩
    rw [cut, rowLeaves_append]
    simp only [leavesAfter, leaves_internal, Option.elim_some]

/-- **One insertion rewires one leaf.** -/
theorem nodeInsert_rewired (node : BpNode) {key : Int32} {value : Nat} (supply : NodeSupply)
    (granted : (nodeInsert node key value supply).2.2.heap.refused = false) :
    let after := nodeInsert node key value supply
    supply.created ≤ after.2.2.created ∧
      LinkedCell.Rewired (CreatedBetween supply after.2.2) node.leaves
        (leavesAfter after.1 after.2.1) := by
  fun_induction nodeInsert node key value supply with
  | case1 address entries next =>
      rw [leaves_leaf]
      exact leafInsert_rewired
  | case2 first rest childIdx child childResult after ran first' rest' set whole ih =>
      rw [ran] at ih
      obtain ⟨grown, rewired⟩ := ih granted
      obtain ⟨below, above, row, changed⟩ := rowLeaves_focus first (childIndexForKey_le key rest)
      have leaves := (changed child).1
      rw [set] at leaves
      refine ⟨grown, ?_⟩
      simp only [leavesAfter, whole, Option.elim_none, List.append_nil] at rewired ⊢
      rw [leaves_internal, leaves_internal, row, leaves]
      exact rewired.inside below above
  | case3 first rest childIdx child childResult after ran first' rest' set promoted right
      split ih =>
      rw [ran] at ih
      obtain ⟨grown, rewired⟩ := ih (absorbSplit_granted granted)
      obtain ⟨below, above, row, changed⟩ := rowLeaves_focus first (childIndexForKey_le key rest)
      have leaves := (changed child).2 promoted right
      have length := length_setChild first rest childIdx child
      rw [set] at leaves length
      have position : childIdx ≤ rest'.length := length ▸ childIndexForKey_le key rest
      obtain ⟨further, absorbed⟩ := absorbSplit_leaves position granted
      refine ⟨grown.trans further, ?_⟩
      simp only [leavesAfter, split, Option.elim_some] at rewired
      rw [leaves_internal, row, absorbed, leaves]
      exact (rewired.inside below above).mono fun address created =>
        ⟨created.1, created.2.trans_le further⟩

/-- The leaves are linked in their order, and their addresses are different. -/
structure LeafChain (leaves : List Leaf) (created : Nat) : Prop where
  linked : LinkedCell.Linked none leaves
  distinct : (LinkedCell.addresses leaves).Nodup
  used : ∀ address ∈ LinkedCell.addresses leaves, address < created

/-- Putting new leaves into the chain leaves it a chain. -/
theorem LeafChain.rewired {before after : List Leaf} {supply next : NodeSupply}
    (chain : LeafChain before supply.created) (grown : supply.created ≤ next.created)
    (rewired : LinkedCell.Rewired (CreatedBetween supply next) before after) :
    LeafChain after next.created where
  linked := rewired.linked chain.linked
  distinct := rewired.nodup chain.distinct fun address member created =>
    absurd (chain.used address member) (Nat.not_lt.mpr created.1)
  used := by
    intro address member
    rcases rewired.mem_addresses member with old | new
    · exact (chain.used address old).trans_le grown
    · exact new.2

/-- The chain through the tree. -/
def Chained (tree : BPlusTree) : Prop :=
  ∀ root ∈ tree.root, LeafChain root.leaves tree.created

/-- The leaves of the tree are chained once it has a root. -/
theorem chained_ensureRoot {tree : BPlusTree} (chained : Chained tree) {heap : Heap}
    {root : BpNode} {supply : NodeSupply} (ran : ensureRoot tree heap = (some root, supply)) :
    LeafChain root.leaves supply.created := by
  rcases ensureRoot_cases ran with ⟨_, present, rfl⟩ | ⟨_, created?, created, isLeaf⟩
  · exact chained root present.symm
  · obtain ⟨address, isAddress, rfl⟩ := Option.map_eq_some_iff.mp isLeaf.symm
    have inside := (nodeCreate_created created).2 address isAddress
    rw [leaves_leaf]
    refine ⟨⟨rfl, trivial⟩, List.nodup_singleton _, ?_⟩
    intro other member
    rw [List.mem_singleton.mp member]
    exact inside.2

/-- An insertion that was refused nothing keeps the leaves chained. -/
theorem Chained.insert {tree : BPlusTree} (chained : Chained tree) {key : Int32} {value : Nat}
    {heap : Heap} (granted : (bptreeInsert tree key value heap).2.2.refused = false) :
    Chained (bptreeInsert tree key value heap).2.1 := by
  cases grantedInsert granted with
  | kept root node insertedNew supply after rooted ran granted returned =>
      have step := @nodeInsert_rewired root key value supply
      rw [ran] at step
      obtain ⟨grown, rewired⟩ := step granted
      simp only [leavesAfter, Option.elim_none, List.append_nil] at rewired
      rw [returned]
      rintro _ ⟨⟩
      exact (chained_ensureRoot chained rooted).rewired grown rewired
  | grown root node right promoted insertedNew supply after final address rooted ran granted created
      returned =>
      have step := @nodeInsert_rewired root key value supply
      rw [ran] at step
      obtain ⟨grown, rewired⟩ := step granted
      have further := (nodeCreate_created created).1
      simp only [leavesAfter, Option.elim_some] at rewired
      rw [returned]
      rintro _ ⟨⟩
      rw [leaves_internal, rowLeaves_cons, rowLeaves_nil]
      apply (chained_ensureRoot chained rooted).rewired (grown.trans further)
      exact rewired.mono fun address inside => ⟨inside.1, inside.2.trans_le further⟩

/-- So does a whole sequence of insertions. -/
theorem insertAll_chained (writes : List (Int32 × Nat)) {heap : Heap}
    (granted : (insertAll writes heap).2.1.refused = false) :
    Chained (insertAll writes heap).1 :=
  insertAll_induction nofun (fun _ _ _ _ chained granted => chained.insert granted) writes granted

/-- **The chain of leaves.** While no allocation is refused, following `next` from the leftmost
leaf leads through every leaf of the tree once, from left to right, and ends there; the keys
on the way are those that were inserted, in ascending order. -/
theorem insertAll_leafChain (writes : List (Int32 × Nat)) (heap : Heap)
    (granted : (insertAll writes heap).2.1.refused = false) :
    ((insertAll writes heap).1.root = none → writes = []) ∧
      ∀ root ∈ (insertAll writes heap).1.root,
        (∀ fuel, root.leaves.length ≤ fuel →
          LinkedCell.follow root.leaves fuel (some root.leftmost.address) = some root.leaves) ∧
        (LinkedCell.addresses root.leaves).Nodup ∧
        ((root.leaves.flatMap (·.item)).map Prod.fst).Pairwise (· < ·) ∧
        ∀ key, key ∈ (root.leaves.flatMap (·.item)).map Prod.fst ↔ key ∈ writes.map Prod.fst := by
  refine ⟨writes_of_no_root granted, fun root present => ?_⟩
  obtain ⟨_, represents⟩ := insertAll_represents writes granted
  have chain := insertAll_chained writes granted root present
  have start : LinkedCell.front none root.leaves = some root.leftmost.address := by
    obtain ⟨others, first⟩ := List.head?_eq_some_iff.mp (head?_leaves root)
    rw [first]
    rfl
  rw [flatMap_leaves, represents.held root present]
  refine ⟨fun fuel enough => ?_, chain.distinct, ?_, mem_keys_ofWrites writes⟩
  · rw [← start]
    exact chain.linked.follow chain.distinct (List.Subset.refl _) enough
  · exact List.pairwise_map.mpr (ascending_ofWrites writes)

/-- Forty descending keys split the leftmost leaf; the chain leads through both halves. -/
theorem insertAll_leafChain_descending :
    ∃ root,
      (insertAll ((List.range 40).map fun i => (Int32.ofNat (40 - i), i)) Heap.generous).1.root =
          some root ∧
        LinkedCell.follow root.leaves root.leaves.length (some root.leftmost.address) =
          some root.leaves ∧
        ((root.leaves.flatMap (·.item)).map Prod.fst).Pairwise (· < ·) := by
  obtain ⟨root, present⟩ : ∃ root,
      (insertAll ((List.range 40).map fun i => (Int32.ofNat (40 - i), i)) Heap.generous).1.root =
        some root := Option.isSome_iff_exists.mp (by decide +kernel)
  obtain ⟨chain, _, ascending, _⟩ :=
    (insertAll_leafChain _ Heap.generous (by decide +kernel)).2 root (Option.mem_def.mpr present)
  exact ⟨root, present, chain _ (Nat.le_refl _), ascending⟩

end MiniDbms.Bptree
