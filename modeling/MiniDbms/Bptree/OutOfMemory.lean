import MiniDbms.Bptree.Balance

/-! # Insertion when memory runs out

Whether an insertion needs new nodes is decided by the nodes that are full on
the path of its key (`MiniDbms.Bptree.nodesNeeded`). If every `node_create` is
granted the insertion does its work; if the first is refused no entry moves; if a
later one is refused, the right half of a node that was already split is linked
from nowhere and its entries are lost (`MiniDbms.Bptree.nodeInsert_outcome`).
The value returned and `tree->size` are right exactly when no needed node is
refused (`MiniDbms.Bptree.insertHonest_iff`), and the other keys keep their values
exactly when the first node is refused or all are granted
(`MiniDbms.Bptree.insertKeepsOthers_iff`).
-/

namespace MiniDbms.Bptree

open Foundation

/-- An insertion of `key` below the node splits the node: the leaf for the key
lacks it, and this leaf and every node above it are full. -/
def overflows (node : BpNode) (key : Int32) : Bool :=
  match node with
  | .leaf _ entries _ =>
      !(entries[leafFindPosition key entries]?).any (·.1 == key) &&
        !decide (entries.length < bptreeMaxKeys)
  | .internal first rest =>
      overflows (childAt first rest (childIndexForKey key rest)) key &&
        !decide (rest.length < bptreeMaxKeys)
termination_by sizeOf node
decreasing_by
  have smaller := sizeOf_childAt_le first rest (childIndexForKey key rest)
  simp only [BpNode.internal.sizeOf_spec]
  omega

/-- The number of nodes on the path of `key` that its insertion splits. -/
def splitsNeeded (node : BpNode) (key : Int32) : Nat :=
  match node with
  | .leaf address entries next => if overflows (.leaf address entries next) key then 1 else 0
  | .internal first rest =>
      splitsNeeded (childAt first rest (childIndexForKey key rest)) key +
        if overflows (.internal first rest) key then 1 else 0
termination_by sizeOf node
decreasing_by
  have smaller := sizeOf_childAt_le first rest (childIndexForKey key rest)
  simp only [BpNode.internal.sizeOf_spec]
  omega

/-- The number of `node_create` calls of `bptree_insert` when none is refused. -/
def nodesNeeded (tree : BPlusTree) (key : Int32) : Nat :=
  match tree.root with
  | none => 1
  | some root => splitsNeeded root key + if overflows root key then 1 else 0

/-- A node that overflows needs a split. -/
theorem splitsNeeded_pos {node : BpNode} {key : Int32} (full : overflows node key = true) :
    0 < splitsNeeded node key := by
  cases node <;> rw [splitsNeeded, if_pos full]
  · exact Nat.one_pos
  · exact Nat.succ_pos _

/-- The next `calls` requests are granted. -/
def Grants (heap : Heap) (calls : Nat) : Prop :=
  ∀ call < calls, heap.grants (heap.requests + call) = true

/-- The heap after `calls` requests that were all granted. -/
def Advanced (before : Heap) (calls : Nat) (after : Heap) : Prop :=
  after.grants = before.grants ∧ after.requests = before.requests + calls ∧
    after.refused = before.refused

theorem Advanced.refl (heap : Heap) : Advanced heap 0 heap :=
  ⟨rfl, rfl, rfl⟩

/-- A granted request creates a node. -/
theorem nodeCreate_of_grant {supply : NodeSupply}
    (granted : supply.heap.grants supply.heap.requests = true) :
    ∃ after, nodeCreate supply = (some supply.created, after) ∧
      Advanced supply.heap 1 after.heap := by
  refine ⟨{ heap := (supply.heap.request sizeofBpNode).2, created := supply.created + 1 }, ?_,
    rfl, rfl, ?_⟩
  · simp only [nodeCreate, Heap.request, granted, sizeofBpNode, ptrdiffMax, Bool.true_and]
    rfl
  · simp only [Heap.request, granted, sizeofBpNode, ptrdiffMax, Bool.true_and]
    exact Bool.or_false _

theorem nodeCreate_of_refusal {supply : NodeSupply}
    (refused : supply.heap.grants supply.heap.requests = false) :
    ∃ after, nodeCreate supply = (none, after) := by
  refine ⟨{ supply with heap := (supply.heap.request sizeofBpNode).2 }, ?_⟩
  simp only [nodeCreate, Heap.request, refused, Bool.false_and]

/-- One more request after `calls` granted ones. -/
theorem Grants.succ_iff {before after : Heap} {calls : Nat} (granted : Grants before calls)
    (advanced : Advanced before calls after) :
    Grants before (calls + 1) ↔ after.grants after.requests = true := by
  obtain ⟨sameGrants, requested, _⟩ := advanced
  rw [sameGrants, requested]
  constructor
  · exact fun all => all calls (Nat.lt_succ_self calls)
  · intro last call below
    rcases Nat.lt_succ_iff_lt_or_eq.mp below with earlier | rfl
    · exact granted call earlier
    · exact last

/-- A row stays spaced when its upper bound moves up. -/
theorem Spaced.widen {covers : Option Int32 → Option Int32 → BpNode → Prop}
    {lo hi : Option Int32} {separator : Int32} {first : BpNode} {rest : List (Int32 × BpNode)}
    (wider : ∀ lo node, Between lo hi separator → covers lo (some separator) node →
      covers lo hi node)
    (between : Between lo hi separator) (spaced : Spaced covers lo (some separator) first rest) :
    Spaced covers lo hi first rest := by
  induction rest generalizing lo first with
  | nil => exact wider lo first between spaced
  | cons slot rest ih =>
      obtain ⟨inner, covered, others⟩ := spaced
      have further : Between (some slot.1) hi separator :=
        ⟨fun _ bound => Option.some.inj bound ▸ inner.2 separator rfl, between.2⟩
      exact ⟨between.trans_left inner, covered, ih further others⟩

/-- A node that lost its right neighbour may answer for the neighbour's range. -/
theorem Ordered.widen {depth : Nat} {lo hi : Option Int32} {separator : Int32} {node : BpNode}
    (between : Between lo hi separator) (ordered : Ordered depth lo (some separator) node) :
    Ordered depth lo hi node := by
  induction depth generalizing lo node with
  | zero =>
      cases node with
      | leaf address entries next =>
          exact ⟨ordered.1, fun entry stored => between.within_left (ordered.2 entry stored)⟩
      | internal first rest => exact ordered.elim
  | succ depth ih =>
      cases node with
      | leaf address entries next => exact ordered.elim
      | internal first rest =>
          exact Spaced.widen (fun _ _ inner covered => ih inner covered) between ordered

/-- Every needed node was granted. -/
structure Completed (node : BpNode) (key : Int32) (supply : NodeSupply) (result : InsertResult)
    (after : NodeSupply) : Prop where
  granted : Grants supply.heap (splitsNeeded node key)
  advanced : Advanced supply.heap (splitsNeeded node key) after.heap
  split : result.split.isSome = overflows node key

/-- The first needed node was refused: the leaf for the key is full, and stays as it is. -/
structure LeafRefused (depth : Nat) (lo hi : Option Int32) (node : BpNode) (key : Int32)
    (supply : NodeSupply) (after : BpNode) (result : InsertResult) : Prop where
  needed : 0 < splitsNeeded node key
  refused : supply.heap.grants supply.heap.requests = false
  result : result = { split := none, insertedNew := false }
  absent : key ∉ node.entries.map Prod.fst
  ordered : Ordered depth lo hi after
  held : after.entries = node.entries

/-- A node was refused after a split below it: the right half of the split is lost. -/
structure HalfLost (depth : Nat) (lo hi : Option Int32) (node : BpNode) (key : Int32)
    (value : Nat) (supply : NodeSupply) (after : BpNode) (result : InsertResult) : Prop where
  first : supply.heap.grants supply.heap.requests = true
  refused : ¬ Grants supply.heap (splitsNeeded node key)
  result : result = { split := none, insertedNew := false }
  ordered : Ordered depth lo hi after
  lost : ∃ left gone right, upsert key value node.entries = left ++ gone ++ right ∧
    16 ≤ gone.length ∧ after.entries = left ++ right

section Internal

variable {depth : Nat} {lo hi childLo childHi : Option Int32} {first : BpNode}
  {rest : List (Int32 × BpNode)} {key : Int32} {value index : Nat}
  {below above : List (Int32 × Nat)} {supply : NodeSupply} {child : BpNode} {result : InsertResult}

/-- A leaf that was refused its split below a child was refused it below the parent. -/
theorem LeafRefused.internal
    (refused : LeafRefused depth childLo childHi (childAt first rest index) key supply child result)
    (focus : Focus (Ordered depth) lo hi first rest key index childLo childHi below above)
    (more : splitsNeeded (childAt first rest index) key ≤
      splitsNeeded (.internal first rest) key) :
    LeafRefused (depth + 1) lo hi (.internal first rest) key supply
      (.internal (setChild first rest index child).1 (setChild first rest index child).2)
      result := by
  obtain ⟨row, rowHeld⟩ := focus.rewritten child refused.ordered
  refine ⟨refused.needed.trans_le more, refused.refused, refused.result, ?_, row, ?_⟩
  · rw [entries_internal, focus.mem_keys]
    exact refused.absent
  · rw [entries_internal, rowHeld, refused.held, entries_internal, focus.entries]

/-- What is lost below a child is lost below the parent. -/
theorem HalfLost.internal
    (half : HalfLost depth childLo childHi (childAt first rest index) key value supply child
      result)
    (focus : Focus (Ordered depth) lo hi first rest key index childLo childHi below above)
    (more : splitsNeeded (childAt first rest index) key ≤
      splitsNeeded (.internal first rest) key) :
    HalfLost (depth + 1) lo hi (.internal first rest) key value supply
      (.internal (setChild first rest index child).1 (setChild first rest index child).2)
      result := by
  obtain ⟨row, rowHeld⟩ := focus.rewritten child half.ordered
  obtain ⟨left, gone, right, written, many, held⟩ := half.lost
  refine ⟨half.first, fun all => half.refused ?_, half.result, row,
    below ++ left, gone, right ++ above, ?_, many, ?_⟩
  · exact fun call earlier => all call (earlier.trans_le more)
  · rw [entries_internal, focus.upsert, written]
    simp only [List.append_assoc]
  · rw [entries_internal, rowHeld, held]
    simp only [List.append_assoc]

end Internal

/-- What an insertion into a leaf leaves behind. -/
theorem leafInsert_outcome {lo hi : Option Int32} {address : Nat} {entries : List (Int32 × Nat)}
    {next : Option Nat} {key : Int32} (value : Nat) (supply : NodeSupply)
    (ordered : Ordered 0 lo hi (.leaf address entries next)) :
    let outcome := leafInsert address entries next key value supply
    Completed (.leaf address entries next) key supply outcome.2.1 outcome.2.2 ∨
      LeafRefused 0 lo hi (.leaf address entries next) key supply outcome.1 outcome.2.1 := by
  intro outcome
  by_cases full : overflows (.leaf address entries next) key = true
  · have needed : splitsNeeded (.leaf address entries next) key = 1 := by
      rw [splitsNeeded, if_pos full]
    have tests := full
    rw [overflows, Bool.and_eq_true, Bool.not_eq_true', Bool.not_eq_true'] at tests
    obtain ⟨absent, noRoom⟩ := tests
    have noRoom := of_decide_eq_false noRoom
    cases answer : supply.heap.grants supply.heap.requests with
    | true =>
        obtain ⟨after, created, advanced⟩ := nodeCreate_of_grant answer
        left
        refine ⟨?_, ?_, ?_⟩
        · rw [needed]
          exact fun call below => by rwa [Nat.lt_one_iff.mp below]
        · rw [needed]
          simpa only [outcome, leafInsert, absent, noRoom, created, Bool.false_eq_true,
            ↓reduceIte] using advanced
        · rw [full]
          simp only [outcome, leafInsert, absent, noRoom, created, Bool.false_eq_true,
            ↓reduceIte, Option.isSome_some]
    | false =>
        obtain ⟨after, created⟩ := nodeCreate_of_refusal answer
        have same : outcome.1 = .leaf address entries next ∧
            outcome.2.1 = { split := none, insertedNew := false } := by
          simp only [outcome, leafInsert, absent, noRoom, created, Bool.false_eq_true, ↓reduceIte,
            and_self]
        right
        refine ⟨by omega, answer, same.2, ?_, same.1 ▸ ordered, by rw [same.1]⟩
        obtain ⟨below, above, rfl, position, lower, upper⟩ := leafFindPosition_spec key ordered.1
        rw [position] at absent
        rw [entries_leaf]
        refine leaf_absent lower (leaf_larger ordered.1 upper ?_)
        rw [absent]
        exact Bool.false_ne_true
  · left
    have needed : splitsNeeded (.leaf address entries next) key = 0 := by
      rw [splitsNeeded, if_neg full]
    have quiet : outcome.2.1.split = none ∧ outcome.2.2 = supply := by
      simp only [outcome, leafInsert]
      split
      · exact ⟨rfl, rfl⟩
      · rename_i absent
        split
        · exact ⟨rfl, rfl⟩
        · rename_i noRoom
          refine absurd ?_ full
          rw [overflows, Bool.and_eq_true]
          exact ⟨by simpa using absent, by simpa using noRoom⟩
    refine ⟨?_, ?_, ?_⟩
    · rw [needed]
      exact fun _ impossible => by cases impossible
    · rw [needed, quiet.2]
      exact Advanced.refl _
    · rw [quiet.1, Option.isSome_none, Bool.eq_false_iff.mpr full]

/-- The right half of a split holds at least sixteen entries. -/
theorem Filled.sixteen {depth : Nat} {node : BpNode} (filled : Filled false depth node) :
    16 ≤ node.entries.length :=
  (Nat.le_self_pow (Nat.succ_ne_zero depth) 16).trans filled.entries

/-- The part of `node_insert` after a child was split, when `after` is the supply
the child left behind. -/
theorem absorbSplit_outcome {depth : Nat} {lo hi : Option Int32} {node : BpNode}
    {first : BpNode} {rest : List (Int32 × BpNode)} {childIdx : Nat} {key promotedKey : Int32}
    {value splits : Nat} {right : BpNode} (insertedNew : Bool) {supply after : NodeSupply}
    {left tail : List (Int32 × Nat)}
    (needed : splitsNeeded node key = splits + if overflows node key then 1 else 0)
    (room : overflows node key = !decide (rest.length < bptreeMaxKeys))
    (positive : 0 < splits) (granted : Grants supply.heap splits)
    (advanced : Advanced supply.heap splits after.heap)
    (row : Spaced (Ordered depth) lo hi first rest)
    (filled : 16 ≤ right.entries.length)
    (upserted : upsert key value node.entries = left ++ right.entries ++ tail)
    (held : rowEntries first rest = left ++ tail) :
    let outcome := absorbSplit first rest childIdx promotedKey right insertedNew after
    Completed node key supply outcome.2.1 outcome.2.2 ∨
      HalfLost (depth + 1) lo hi node key value supply outcome.1 outcome.2.1 := by
  intro outcome
  by_cases space : rest.length < bptreeMaxKeys
  · have notFull : overflows node key = false := by rw [room, decide_eq_true space]; rfl
    rw [notFull, if_neg Bool.false_ne_true, Nat.add_zero] at needed
    left
    refine ⟨by rwa [needed], ?_, ?_⟩
    · rw [needed]
      simpa only [outcome, absorbSplit, space, ↓reduceIte] using advanced
    · rw [notFull]
      simp only [outcome, absorbSplit, space, ↓reduceIte, Option.isSome_none]
  · have full : overflows node key = true := by rw [room, decide_eq_false space]; rfl
    rw [full, if_pos rfl] at needed
    cases answer : after.heap.grants after.heap.requests with
    | true =>
        obtain ⟨final, created, further⟩ := nodeCreate_of_grant answer
        left
        refine ⟨by rw [needed]; exact (granted.succ_iff advanced).mpr answer, ?_, ?_⟩
        · rw [needed]
          simp only [outcome, absorbSplit, space, ↓reduceIte, created]
          obtain ⟨sameGrants, requested, sameRefused⟩ := advanced
          obtain ⟨finalGrants, finalRequested, finalRefused⟩ := further
          exact ⟨finalGrants.trans sameGrants, by rw [finalRequested, requested]; rfl,
            finalRefused.trans sameRefused⟩
        · rw [full]
          simp only [outcome, absorbSplit, space, ↓reduceIte, created, Option.isSome_some]
    | false =>
        obtain ⟨final, created⟩ := nodeCreate_of_refusal answer
        have same : outcome.1 = .internal first rest ∧
            outcome.2.1 = { split := none, insertedNew := false } := by
          simp only [outcome, absorbSplit, space, ↓reduceIte, created, and_self]
        right
        refine ⟨granted 0 positive, ?_, same.2, same.1 ▸ row, ?_⟩
        · rw [needed, granted.succ_iff advanced, answer]
          exact Bool.false_ne_true
        · exact ⟨left, right.entries, tail, upserted, filled, by
            rw [same.1, entries_internal, held]⟩

/-- **Insertion below a node, whatever is refused.** The induction is on the depth
of the node. -/
theorem nodeInsert_outcome {depth : Nat} {lo hi : Option Int32} {whole : Bool} {node : BpNode}
    {key : Int32} (value : Nat) {supply : NodeSupply} (ordered : Ordered depth lo hi node)
    (filled : Filled whole depth node) (within : Within lo hi key)
    (fresh : supply.heap.refused = false) :
    let outcome := nodeInsert node key value supply
    Completed node key supply outcome.2.1 outcome.2.2 ∨
      LeafRefused depth lo hi node key supply outcome.1 outcome.2.1 ∨
        HalfLost depth lo hi node key value supply outcome.1 outcome.2.1 := by
  induction depth generalizing lo hi whole node supply with
  | zero =>
      cases node with
      | leaf address entries next =>
          rw [nodeInsert]
          exact (leafInsert_outcome value supply ordered).imp_right .inl
      | internal first rest => exact ordered.elim
  | succ depth ih =>
      cases node with
      | leaf address entries next => exact ordered.elim
      | internal first rest =>
          obtain ⟨childLo, childHi, below, above, focus⟩ :=
            Spaced.focus (fun _ _ _ covered => covered.within) ordered within
          have needed : splitsNeeded (.internal first rest) key =
              splitsNeeded (childAt first rest (childIndexForKey key rest)) key +
                if overflows (.internal first rest) key then 1 else 0 := by rw [splitsNeeded]
          have room : overflows (.internal first rest) key =
              (overflows (childAt first rest (childIndexForKey key rest)) key &&
                !decide (rest.length < bptreeMaxKeys)) := by rw [overflows]
          rw [nodeInsert]
          generalize childIndexForKey key rest = childIdx at focus needed room ⊢
          have childFilled := filled.2.2.2 _ (childAt_mem_children first rest childIdx)
          have inner := ih focus.covered childFilled focus.inside fresh
          have spec := @nodeInsert_spec depth childLo childHi (childAt first rest childIdx) key
            value supply focus.covered focus.inside
          have occupied := @nodeInsert_filled false depth (childAt first rest childIdx) key value
            supply childFilled
          have more : splitsNeeded (childAt first rest childIdx) key ≤
              splitsNeeded (.internal first rest) key := needed ▸ Nat.le_add_right _ _
          rcases ran : nodeInsert (childAt first rest childIdx) key value supply with
            ⟨child, childResult, after⟩
          rw [ran] at inner spec occupied
          rcases inner with completed | refused | lost
          · have granted : after.heap.refused = false := completed.advanced.2.2.trans fresh
            rcases childResult with ⟨_ | ⟨promotedKey, right⟩, insertedNew⟩
            · have childFits : overflows (childAt first rest childIdx) key = false :=
                completed.split.symm
              rw [childFits, Bool.false_and] at room
              rw [room] at needed
              left
              exact ⟨needed ▸ completed.granted, needed ▸ completed.advanced, room.symm⟩
            · have childFull : overflows (childAt first rest childIdx) key = true :=
                completed.split.symm
              obtain ⟨between, leftOrdered, _, held⟩ :=
                (spec granted).halves promotedKey right rfl
              obtain ⟨row, rowHeld⟩ := focus.rewritten child (leftOrdered.widen between)
              rw [childFull, Bool.true_and] at room
              refine (absorbSplit_outcome insertedNew needed ?_ (splitsNeeded_pos childFull)
                completed.granted completed.advanced row
                ((occupied granted).two promotedKey right rfl).2.sixteen
                (?_ : _ = (below ++ child.entries) ++ right.entries ++ above) ?_).imp_right .inr
              · rw [room, length_setChild]
              · rw [entries_internal, focus.upsert, ← held]
                simp only [List.append_assoc]
              · rw [rowHeld, List.append_assoc]
          · obtain rfl : childResult = { split := none, insertedNew := false } := refused.result
            exact .inr (.inl (refused.internal focus more))
          · obtain rfl : childResult = { split := none, insertedNew := false } := lost.result
            exact .inr (.inr (lost.internal focus more))

/-- A heap that answers the calls of one insertion by `choice`. -/
def choosing (choice : Nat → Bool) : Heap :=
  { grants := choice, requests := 0, refused := false }

/-- The tree has a root, and searches read `entries`. -/
def Holds (tree : BPlusTree) (entries : List (Int32 × Nat)) : Prop :=
  ∃ root depth, tree.root = some root ∧ Ordered depth none none root ∧ root.entries = entries

theorem Holds.ascending {tree : BPlusTree} {entries : List (Int32 × Nat)}
    (holds : Holds tree entries) : Ascending entries := by
  obtain ⟨root, depth, _, ordered, rfl⟩ := holds
  exact ordered.ascending

theorem Holds.search {tree : BPlusTree} {entries : List (Int32 × Nat)} (holds : Holds tree entries)
    (key : Int32) : bptreeSearch tree key = entries.lookup key := by
  obtain ⟨root, depth, present, ordered, rfl⟩ := holds
  rw [bptreeSearch, present, Option.bind_some, nodeSearch_eq_lookup ordered (within_none key)]

/-- What an insertion leaves of a tree that held `entries`. -/
inductive TreeOutcome (tree : BPlusTree) (entries : List (Int32 × Nat)) (key : Int32) (value : Nat)
    (heap : Heap) (after : Bool × BPlusTree × Heap) : Prop where
  /-- Every needed node was granted. -/
  | done (granted : Grants heap (nodesNeeded tree key)) (returned : after.1 = true)
      (represents : Represents after.2.1 (upsert key value entries))
  /-- The first root was refused. -/
  | rootless (empty : tree.root = none) (refused : heap.grants heap.requests = false)
      (returned : after.1 = false) (same : after.2.1 = tree)
  /-- The split of the full leaf was refused, which the returned value does not tell. -/
  | unmoved (rooted : tree.root ≠ none) (refused : heap.grants heap.requests = false)
      (needed : 0 < nodesNeeded tree key) (returned : after.1 = true)
      (absent : key ∉ entries.map Prod.fst) (holds : Holds after.2.1 entries)
  /-- A node above a finished split was refused. -/
  | lost (rooted : tree.root ≠ none) (first : heap.grants heap.requests = true)
      (refused : ¬ Grants heap (nodesNeeded tree key)) (left gone right : List (Int32 × Nat))
      (written : upsert key value entries = left ++ gone ++ right) (many : 16 ≤ gone.length)
      (holds : Holds after.2.1 (left ++ right)) (size : entries.length ≤ after.2.1.size)

/-- An insertion into a tree without a root needs one node. -/
theorem bptreeInsert_rootless {tree : BPlusTree} {entries : List (Int32 × Nat)} {key : Int32}
    {value : Nat} {heap : Heap} (represents : Represents tree entries) (empty : tree.root = none)
    (fresh : heap.refused = false) :
    TreeOutcome tree entries key value heap (bptreeInsert tree key value heap) := by
  have needed : nodesNeeded tree key = 1 := by rw [nodesNeeded, empty]
  cases answer : heap.grants heap.requests with
  | true =>
      obtain ⟨after, created, advanced⟩ :=
        @nodeCreate_of_grant { heap := heap, created := tree.created } answer
      have granted : (bptreeInsert tree key value heap).2.2.refused = false := by
        simp only [bptreeInsert, ensureRoot, empty, created, nodeInsert, leafInsert,
          leafFindPosition, List.getElem?_nil, Option.any_none, Bool.false_eq_true, ↓reduceIte,
          List.length_nil, bptreeMaxKeys, Nat.zero_lt_succ]
        exact advanced.2.2.trans fresh
      obtain ⟨returned, after⟩ := represents.insert granted
      refine .done ?_ returned after
      rw [needed]
      exact fun call below => by rwa [Nat.lt_one_iff.mp below]
  | false =>
      obtain ⟨after, created⟩ :=
        @nodeCreate_of_refusal { heap := heap, created := tree.created } answer
      refine .rootless empty answer ?_ ?_ <;>
        simp only [bptreeInsert, ensureRoot, empty, created]

/-- **Insertion, whatever is refused.** -/
theorem bptreeInsert_outcome {tree : BPlusTree} {entries : List (Int32 × Nat)} (key : Int32)
    (value : Nat) {heap : Heap} (represents : Represents tree entries) (balanced : Balanced tree)
    (fresh : heap.refused = false) :
    TreeOutcome tree entries key value heap (bptreeInsert tree key value heap) := by
  cases present : tree.root with
  | none => exact bptreeInsert_rootless represents present fresh
  | some root =>
      have rooted : tree.root ≠ none := by rw [present]; exact nofun
      obtain ⟨other, filled⟩ := balanced root present
      obtain ⟨depth, ordered⟩ := represents.ordered root present
      obtain rfl := ordered.depth_eq filled
      have held := represents.held root present
      have needed : nodesNeeded tree key =
          splitsNeeded root key + if overflows root key then 1 else 0 := by
        rw [nodesNeeded, present]
      have inner := @nodeInsert_outcome depth none none true root key value
        { heap := heap, created := tree.created } ordered filled (within_none key) fresh
      have spec := @nodeInsert_spec depth none none root key value
        { heap := heap, created := tree.created } ordered (within_none key)
      have occupied := @nodeInsert_filled true depth root key value
        { heap := heap, created := tree.created } filled
      have insert := @Represents.insert tree entries represents key value heap
      rcases ran : nodeInsert root key value { heap := heap, created := tree.created } with
        ⟨node, ⟨split, insertedNew⟩, after⟩
      rw [ran] at inner spec occupied
      simp only [bptreeInsert, ensureRoot, present, ran] at insert ⊢
      rcases inner with completed | refused | lost
      · have granted : after.heap.refused = false := completed.advanced.2.2.trans fresh
        rcases split with _ | ⟨promoted, right⟩
        · have fits : overflows root key = false := completed.split.symm
          obtain ⟨returned, after⟩ := insert granted
          refine .done ?_ returned after
          rw [needed, fits, if_neg Bool.false_ne_true, Nat.add_zero]
          exact completed.granted
        · have full : overflows root key = true := completed.split.symm
          rw [full, if_pos rfl] at needed
          have last := completed.granted.succ_iff completed.advanced
          cases answer : after.heap.grants after.heap.requests with
          | true =>
              obtain ⟨final, created, further⟩ := nodeCreate_of_grant answer
              simp only [created] at insert ⊢
              obtain ⟨_, after⟩ := insert (further.2.2.trans granted)
              exact .done (needed ▸ last.mpr answer) rfl after
          | false =>
              obtain ⟨final, created⟩ := nodeCreate_of_refusal answer
              obtain ⟨between, leftOrdered, _, joined⟩ := (spec granted).halves promoted right rfl
              simp only [created]
              refine .lost rooted (completed.granted 0 (splitsNeeded_pos full)) ?_
                node.entries right.entries [] ?_
                ((occupied granted).two promoted right rfl).2.sixteen
                ⟨node, depth, rfl, leftOrdered.widen between, (List.append_nil _).symm⟩ ?_
              · rw [needed, last, answer]
                exact Bool.false_ne_true
              · rw [List.append_nil, joined, held]
              · simp only [represents.size]
                split <;> omega
      · cases refused.result
        refine .unmoved rooted refused.refused ?_ rfl (held ▸ refused.absent)
          ⟨node, depth, rfl, refused.ordered, refused.held.trans held⟩
        rw [needed]
        exact Nat.add_pos_left refused.needed _
      · obtain ⟨left, gone, right, written, many, kept⟩ := lost.lost
        cases lost.result
        refine .lost rooted lost.first ?_ left gone right (held ▸ written) many
          ⟨node, depth, rfl, lost.ordered, kept⟩ represents.size.ge
        intro all
        refine lost.refused fun call below => all call ?_
        omega

/-- The returned value says whether the binding was written, and `tree->size` is
the number of keys that a search finds. -/
def InsertHonest (tree : BPlusTree) (key : Int32) (value : Nat) (choice : Nat → Bool) : Prop :=
  let after := bptreeInsert tree key value (choosing choice)
  (after.1 = true ↔ bptreeSearch after.2.1 key = some value) ∧
    after.2.1.size = {query | bptreeSearch after.2.1 query ≠ none}.ncard

/-- A search for any other key answers as before. -/
def InsertKeepsOthers (tree : BPlusTree) (key : Int32) (value : Nat) (choice : Nat → Bool) :
    Prop :=
  ∀ query, query ≠ key →
    bptreeSearch (bptreeInsert tree key value (choosing choice)).2.1 query =
      bptreeSearch tree query

/-- The calls of an insertion whose nodes are all granted. -/
theorem grants_choosing (choice : Nat → Bool) (calls : Nat) :
    Grants (choosing choice) calls ↔ ∀ call < calls, choice call = true := by
  simp only [Grants, choosing, Nat.zero_add]

theorem ncard_found {tree : BPlusTree} {entries : List (Int32 × Nat)}
    (reads : ∀ key, bptreeSearch tree key = entries.lookup key) (ascending : Ascending entries) :
    {query | bptreeSearch tree query ≠ none}.ncard = entries.length := by
  simp only [reads]
  exact ncard_lookup ascending

/-- The result is honest exactly for a tree without a root or when every needed node is granted. -/
theorem insertHonest_of_outcome {tree : BPlusTree} {entries : List (Int32 × Nat)} {key : Int32}
    {value : Nat} {choice : Nat → Bool} (represents : Represents tree entries)
    (outcome : TreeOutcome tree entries key value (choosing choice)
      (bptreeInsert tree key value (choosing choice))) :
    InsertHonest tree key value choice ↔
      (tree.root = none ∨ Grants (choosing choice) (nodesNeeded tree key)) := by
  unfold InsertHonest
  cases outcome with
  | done granted returned after =>
      refine iff_of_true ⟨?_, ?_⟩ (.inr granted)
      · rw [after.search, lookup_upsert, if_pos rfl, returned]
        exact iff_of_true rfl rfl
      · rw [after.size, ncard_found after.search after.ascending]
  | rootless empty refused returned same =>
      refine iff_of_true ⟨?_, ?_⟩ (.inl empty)
      · rw [returned, same, represents.search, represents.empty empty]
        exact iff_of_false Bool.false_ne_true nofun
      · rw [same, represents.size, ncard_found represents.search represents.ascending]
  | unmoved rooted refused needed returned absent holds =>
      refine iff_of_false ?_ ?_
      · rintro ⟨told, _⟩
        have found := told.mp returned
        rw [holds.search, (lookup_eq_none_iff entries key).mpr absent] at found
        cases found
      · rintro (empty | granted)
        · exact rooted empty
        · exact Bool.false_ne_true (refused.symm.trans (granted 0 needed))
  | lost rooted first refused left gone right written many holds size =>
      refine iff_of_false ?_ ?_
      · rintro ⟨_, counted⟩
        rw [ncard_found holds.search holds.ascending] at counted
        have grown := congrArg List.length written
        rw [length_upsert represents.ascending] at grown
        simp only [List.length_append] at grown counted
        split at grown <;> omega
      · rintro (empty | granted)
        · exact rooted empty
        · exact refused granted

/-- Among the lost entries there is one of another key, which was stored before. -/
theorem exists_lost {entries left gone right : List (Int32 × Nat)} {key : Int32} {value : Nat}
    (ascending : Ascending entries) (written : upsert key value entries = left ++ gone ++ right)
    (many : 16 ≤ gone.length) :
    ∃ query, query ≠ key ∧ query ∈ entries.map Prod.fst ∧
      query ∉ (left ++ right).map Prod.fst := by
  have sorted : Ascending (left ++ gone ++ right) := written ▸ ascending.upsert
  obtain ⟨sortedLeft, _, beforeRight⟩ := List.pairwise_append.mp sorted
  obtain ⟨_, sortedGone, beforeGone⟩ := List.pairwise_append.mp sortedLeft
  obtain ⟨one, another, present, distinct⟩ : ∃ one another, one ∈ gone ∧ another ∈ gone ∧
      one.1 ≠ another.1 := by
    rcases gone with _ | ⟨one, _ | ⟨another, rest⟩⟩
    · exact absurd many (Nat.not_lt_zero 15)
    · rw [List.length_singleton] at many
      exact absurd many (by decide)
    · exact ⟨one, another, List.mem_cons_self, List.mem_cons_of_mem _ List.mem_cons_self,
        ((List.pairwise_cons.mp sortedGone).1 another List.mem_cons_self).ne⟩
  have gives : ∀ entry ∈ gone, entry.1 ≠ key → ∃ query, query ≠ key ∧
      query ∈ entries.map Prod.fst ∧ query ∉ (left ++ right).map Prod.fst := by
    intro entry inside different
    refine ⟨entry.1, different, ?_, ?_⟩
    · have member : entry.1 ∈ (upsert key value entries).map Prod.fst :=
        List.mem_map_of_mem (by rw [written]; simp only [List.mem_append, inside, true_or, or_true])
      exact (mem_keys_upsert.mp member).resolve_left different
    · apply not_mem_keys
      intro other stored
      rcases List.mem_append.mp stored with low | high
      · exact (beforeGone other low entry inside).ne
      · exact (beforeRight entry (List.mem_append_right _ inside) other high).ne'
  by_cases same : one.1 = key
  · exact gives another distinct.1 fun other => distinct.2 (same.trans other.symm)
  · exact gives one present same

/-- The other keys are kept exactly when no needed node is refused behind a granted one. -/
theorem insertKeepsOthers_of_outcome {tree : BPlusTree} {entries : List (Int32 × Nat)}
    {key : Int32} {value : Nat} {choice : Nat → Bool} (represents : Represents tree entries)
    (outcome : TreeOutcome tree entries key value (choosing choice)
      (bptreeInsert tree key value (choosing choice))) :
    InsertKeepsOthers tree key value choice ↔
      (choice 0 = true → Grants (choosing choice) (nodesNeeded tree key)) := by
  unfold InsertKeepsOthers
  cases outcome with
  | done granted returned after =>
      refine iff_of_true (fun query different => ?_) fun _ => granted
      rw [after.search, represents.search, lookup_upsert, if_neg different]
  | rootless empty refused returned same =>
      refine iff_of_true (fun query _ => by rw [same]) fun first => ?_
      exact absurd (refused.symm.trans first) Bool.false_ne_true
  | unmoved rooted refused needed returned absent holds =>
      refine iff_of_true (fun query _ => by rw [holds.search, represents.search]) fun first => ?_
      exact absurd (refused.symm.trans first) Bool.false_ne_true
  | lost rooted first refused left gone right written many holds size =>
      refine iff_of_false ?_ fun granted => refused (granted first)
      intro kept
      obtain ⟨query, different, stored, gone⟩ := exists_lost represents.ascending written many
      have same := kept query different
      rw [holds.search, represents.search, (lookup_eq_none_iff _ query).mpr gone] at same
      exact (lookup_eq_none_iff _ query).mp same.symm stored

/-- **What `bptree_insert` reports.** In a tree built by insertions none of whose
nodes was refused, the value returned by one more insertion and `tree->size` are
right if and only if the tree was empty or every node the insertion needs is
granted. -/
theorem insertHonest_iff (writes : List (Int32 × Nat)) (heap : Heap)
    (granted : (insertAll writes heap).2.1.refused = false) (key : Int32) (value : Nat)
    (choice : Nat → Bool) :
    InsertHonest (insertAll writes heap).1 key value choice ↔
      ((insertAll writes heap).1.root = none ∨
        ∀ call < nodesNeeded (insertAll writes heap).1 key, choice call = true) := by
  obtain ⟨_, represents⟩ := insertAll_represents writes granted
  rw [insertHonest_of_outcome represents
    (bptreeInsert_outcome key value represents (insertAll_filled writes granted) rfl),
    grants_choosing]

/-- Thirty-one ascending keys fill the root leaf; the thirty-second needs two nodes. -/
theorem insertHonest_granted :
    InsertHonest (insertAll ((List.range 31).map fun i => (Int32.ofNat i, i)) Heap.generous).1
      31 31 fun _ => true :=
  (insertHonest_iff _ Heap.generous (by decide +kernel) 31 31 fun _ => true).mpr
    (.inr fun _ _ => rfl)

/-- When the leaf's new sibling is refused, the insertion reports success and the
key is not found. -/
theorem insertHonest_fails_at_leaf :
    ¬ InsertHonest (insertAll ((List.range 31).map fun i => (Int32.ofNat i, i)) Heap.generous).1
      31 31 fun _ => false := by
  intro honest
  have found := honest.1.mp (by decide +kernel)
  revert found
  decide +kernel

/-- **What happens to the other keys.** In a tree built by insertions none of whose
nodes was refused, one more insertion keeps the answers for all other keys if and
only if the first node it needs is refused or all nodes it needs are granted. -/
theorem insertKeepsOthers_iff (writes : List (Int32 × Nat)) (heap : Heap)
    (granted : (insertAll writes heap).2.1.refused = false) (key : Int32) (value : Nat)
    (choice : Nat → Bool) :
    InsertKeepsOthers (insertAll writes heap).1 key value choice ↔
      (choice 0 = true →
        ∀ call < nodesNeeded (insertAll writes heap).1 key, choice call = true) := by
  obtain ⟨_, represents⟩ := insertAll_represents writes granted
  rw [insertKeepsOthers_of_outcome represents
    (bptreeInsert_outcome key value represents (insertAll_filled writes granted) rfl),
    grants_choosing]

/-- When the leaf's new sibling is refused, the thirty-one stored keys stay. -/
theorem insertKeepsOthers_refused_leaf :
    InsertKeepsOthers (insertAll ((List.range 31).map fun i => (Int32.ofNat i, i)) Heap.generous).1
      31 31 fun _ => false :=
  (insertKeepsOthers_iff _ Heap.generous (by decide +kernel) 31 31 fun _ => false).mpr nofun

/-- When the new root is refused after the leaf was split, key 20 is no longer found. -/
theorem insertKeepsOthers_fails_at_root :
    ¬ InsertKeepsOthers
      (insertAll ((List.range 31).map fun i => (Int32.ofNat i, i)) Heap.generous).1
      31 31 fun call => call == 0 := by
  intro kept
  have same := kept 20 (by decide)
  revert same
  decide +kernel

end MiniDbms.Bptree
