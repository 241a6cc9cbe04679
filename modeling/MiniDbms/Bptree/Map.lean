import MiniDbms.Bptree.Order

/-! # The B+ tree is a map

While no allocation is refused, `bptree_insert` writes one binding into the
entries the tree holds (`MiniDbms.Bptree.Represents.insert`) and
`bptree_search` reads them (`MiniDbms.Bptree.Represents.search`). A sequence of
insertions therefore answers every search with the last value inserted under the
key (`MiniDbms.Bptree.insertAll_is_map`).
-/

namespace MiniDbms.Bptree

open Foundation

/-- A refusal is noted in the heap. -/
theorem nodeCreate_refused (supply : NodeSupply) :
    (nodeCreate supply).2.heap.refused = (supply.heap.refused || (nodeCreate supply).1.isNone) := by
  have remembered := supply.heap.request_refused sizeofBpNode
  unfold nodeCreate
  rcases answer : supply.heap.request sizeofBpNode with ⟨_ | _, heap⟩ <;>
    rw [answer] at remembered <;> exact remembered

/-- A granted request creates the node. -/
theorem nodeCreate_granted {supply after : NodeSupply} {created : Option Nat}
    (ran : nodeCreate supply = (created, after)) (granted : after.heap.refused = false) :
    supply.heap.refused = false ∧ ∃ address, created = some address := by
  have remembered := nodeCreate_refused supply
  rw [ran] at remembered
  cases created with
  | none =>
      simp only [Option.isNone_none, Bool.or_true, granted] at remembered
      cases remembered
  | some address =>
      simp only [Option.isNone_some, Bool.or_false, granted] at remembered
      exact ⟨remembered.symm, address, rfl⟩

/-- An insertion into a leaf that was refused nothing begins with a heap that was refused
nothing. -/
theorem leafInsert_granted {address : Nat} {entries : List (Int32 × Nat)} {next : Option Nat}
    {key : Int32} {value : Nat} {supply : NodeSupply}
    (granted : (leafInsert address entries next key value supply).2.2.heap.refused = false) :
    supply.heap.refused = false := by
  simp only [leafInsert] at granted
  split at granted
  · exact granted
  · split at granted
    · exact granted
    · rcases ran : nodeCreate supply with ⟨_ | rightAddress, after⟩ <;> rw [ran] at granted <;>
        exact (nodeCreate_granted ran granted).1

/-- So does an insertion into an internal node. -/
theorem absorbSplit_granted {first : BpNode} {rest : List (Int32 × BpNode)} {childIdx : Nat}
    {promotedKey : Int32} {right : BpNode} {insertedNew : Bool} {supply : NodeSupply}
    (granted : (absorbSplit first rest childIdx promotedKey right insertedNew
      supply).2.2.heap.refused = false) : supply.heap.refused = false := by
  unfold absorbSplit at granted
  split at granted
  · exact granted
  · rcases ran : nodeCreate supply with ⟨_ | address, after⟩ <;> rw [ran] at granted <;>
      exact (nodeCreate_granted ran granted).1

/-- A refusal is never forgotten: what was granted after an insertion was granted
before it. -/
theorem nodeInsert_granted (node : BpNode) {key : Int32} {value : Nat} (supply : NodeSupply)
    (granted : (nodeInsert node key value supply).2.2.heap.refused = false) :
    supply.heap.refused = false := by
  fun_induction nodeInsert node key value supply with
  | case1 address entries next => exact leafInsert_granted granted
  | case2 first rest childIdx child childResult after ran first' rest' set whole ih =>
      rw [ran] at ih
      exact ih granted
  | case3 first rest childIdx child childResult after ran first' rest' set promoted right
      split ih =>
      rw [ran] at ih
      exact ih (absorbSplit_granted granted)

/-- The root to insert into is the tree's, or a new leaf. -/
theorem ensureRoot_cases {tree : BPlusTree} {heap : Heap} {root? : Option BpNode}
    {supply : NodeSupply} (ran : ensureRoot tree heap = (root?, supply)) :
    (tree.root ≠ none ∧ root? = tree.root ∧ supply = { heap := heap, created := tree.created }) ∨
      (tree.root = none ∧ ∃ created,
        nodeCreate { heap := heap, created := tree.created } = (created, supply) ∧
          root? = created.map fun address => .leaf address [] none) := by
  unfold ensureRoot at ran
  cases present : tree.root with
  | some root =>
      rw [present] at ran
      cases ran
      exact .inl ⟨nofun, rfl, rfl⟩
  | none =>
      rw [present] at ran
      rcases created : nodeCreate { heap := heap, created := tree.created } with
        ⟨_ | address, after⟩ <;> simp only [created] at ran <;> cases ran
      · exact .inr ⟨rfl, none, rfl, rfl⟩
      · exact .inr ⟨rfl, some address, rfl, rfl⟩

/-- When nothing is refused, there is a root. -/
theorem ensureRoot_granted {tree : BPlusTree} {heap : Heap} {root? : Option BpNode}
    {supply : NodeSupply} (ran : ensureRoot tree heap = (root?, supply))
    (granted : supply.heap.refused = false) : heap.refused = false ∧ root? ≠ none := by
  rcases ensureRoot_cases ran with ⟨rooted, rfl, rfl⟩ | ⟨_, _, created, rfl⟩
  · exact ⟨granted, rooted⟩
  · obtain ⟨before, address, rfl⟩ := nodeCreate_granted created granted
    exact ⟨before, nofun⟩

/-- What `bptree_insert` does when no allocation is refused: the root stays one node, or it
was split and gets a new root above it. -/
inductive GrantedInsert (tree : BPlusTree) (key : Int32) (value : Nat) (heap : Heap) : Prop where
  | kept (root node : BpNode) (insertedNew : Bool) (supply after : NodeSupply)
      (rooted : ensureRoot tree heap = (some root, supply))
      (ran : nodeInsert root key value supply =
        (node, { split := none, insertedNew := insertedNew }, after))
      (granted : after.heap.refused = false)
      (returned : bptreeInsert tree key value heap =
        (true,
          { root := some node
            size := if insertedNew then tree.size + 1 else tree.size
            created := after.created },
          after.heap))
  | grown (root node right : BpNode) (promoted : Int32) (insertedNew : Bool)
      (supply after final : NodeSupply) (address : Nat)
      (rooted : ensureRoot tree heap = (some root, supply))
      (ran : nodeInsert root key value supply =
        (node, { split := some (promoted, right), insertedNew := insertedNew }, after))
      (granted : after.heap.refused = false)
      (created : nodeCreate after = (some address, final))
      (returned : bptreeInsert tree key value heap =
        (true,
          { root := some (.internal node [(promoted, right)])
            size := if insertedNew then tree.size + 1 else tree.size
            created := final.created },
          final.heap))

/-- An insertion that was refused nothing, step by step. -/
theorem grantedInsert {tree : BPlusTree} {key : Int32} {value : Nat} {heap : Heap}
    (granted : (bptreeInsert tree key value heap).2.2.refused = false) :
    GrantedInsert tree key value heap := by
  have returned : bptreeInsert tree key value heap = bptreeInsert tree key value heap := rfl
  conv_rhs at returned => unfold bptreeInsert
  unfold bptreeInsert at granted
  rcases rooted : ensureRoot tree heap with ⟨root?, supply⟩
  rw [rooted] at granted returned
  cases root? with
  | none => exact absurd rfl (ensureRoot_granted rooted granted).2
  | some root =>
      rcases ran : nodeInsert root key value supply with ⟨node, ⟨split, insertedNew⟩, after⟩
      simp only [ran] at granted returned
      rcases split with _ | ⟨promoted, right⟩
      · exact .kept root node insertedNew supply after rooted ran granted returned
      · rcases created : nodeCreate after with ⟨created?, final⟩
        rw [created] at granted returned
        cases created? with
        | none =>
            obtain ⟨_, _, impossible⟩ := nodeCreate_granted created granted
            cases impossible
        | some address =>
            exact .grown root node right promoted insertedNew supply after final address rooted ran
              (nodeCreate_granted created granted).1 created returned

/-- An insertion that was refused nothing begins with a heap that was refused nothing. -/
theorem bptreeInsert_granted {tree : BPlusTree} {key : Int32} {value : Nat} {heap : Heap}
    (granted : (bptreeInsert tree key value heap).2.2.refused = false) : heap.refused = false := by
  cases grantedInsert granted with
  | kept root node insertedNew supply after rooted ran granted returned =>
      have below := @nodeInsert_granted root key value supply
      rw [ran] at below
      exact (ensureRoot_granted rooted (below granted)).1
  | grown root node right promoted insertedNew supply after final address rooted ran granted =>
      have below := @nodeInsert_granted root key value supply
      rw [ran] at below
      exact (ensureRoot_granted rooted (below granted)).1

/-- The position found separates the smaller keys from the others. -/
theorem leafFindPosition_spec (key : Int32) {entries : List (Int32 × Nat)}
    (ascending : Ascending entries) :
    ∃ below above, entries = below ++ above ∧ leafFindPosition key entries = below.length ∧
      (∀ entry ∈ below, entry.1 < key) ∧ ∀ entry ∈ above, key ≤ entry.1 := by
  induction entries with
  | nil => exact ⟨[], [], rfl, rfl, nofun, nofun⟩
  | cons entry rest ih =>
      obtain ⟨head, tail⟩ := List.pairwise_cons.mp ascending
      by_cases smaller : entry.1 < key
      · obtain ⟨below, above, rfl, position, lower, upper⟩ := ih tail
        refine ⟨entry :: below, above, rfl, ?_, ?_, upper⟩
        · simp only [leafFindPosition, smaller, ↓reduceIte, position, List.length_cons]
        · intro other member
          rcases List.mem_cons.mp member with rfl | later
          · exact smaller
          · exact lower other later
      · have reached : key ≤ entry.1 := not_lt.mp smaller
        refine ⟨[], entry :: rest, rfl, ?_, nofun, ?_⟩
        · simp only [leafFindPosition, smaller, ↓reduceIte, List.length_nil]
        · intro other member
          rcases List.mem_cons.mp member with rfl | later
          · exact reached
          · exact reached.trans (head other later).le

/-- The outcome of an insertion below a node of depth `depth` responsible for
`[lo, hi)`, whose entries were `before`: the node, or the node and the right half
split off it, hold the entries with the binding written. -/
structure Inserted (depth : Nat) (lo hi : Option Int32) (before : List (Int32 × Nat))
    (key : Int32) (value : Nat) (after : BpNode) (result : InsertResult) : Prop where
  insertedNew : result.insertedNew = decide (key ∉ before.map Prod.fst)
  whole : result.split = none →
    Ordered depth lo hi after ∧ after.entries = upsert key value before
  halves : ∀ promoted right, result.split = some (promoted, right) →
    Between lo hi promoted ∧ Ordered depth lo (some promoted) after ∧
      Ordered depth (some promoted) hi right ∧
        after.entries ++ right.entries = upsert key value before

theorem Inserted.of_whole {depth : Nat} {lo hi : Option Int32} {before : List (Int32 × Nat)}
    {key : Int32} {value : Nat} {after : BpNode} {insertedNew : Bool}
    (new : insertedNew = decide (key ∉ before.map Prod.fst)) (ordered : Ordered depth lo hi after)
    (held : after.entries = upsert key value before) :
    Inserted depth lo hi before key value after { split := none, insertedNew := insertedNew } :=
  ⟨new, fun _ => ⟨ordered, held⟩, nofun⟩

/-- Writing a binding inside the range of a leaf keeps the leaf ordered. -/
theorem ordered_leaf_upsert {lo hi : Option Int32} {entries : List (Int32 × Nat)} {key : Int32}
    (value : Nat) (ascending : Ascending entries) (inside : ∀ entry ∈ entries, Within lo hi entry.1)
    (within : Within lo hi key) (address : Nat) (next : Option Nat) :
    Ordered 0 lo hi (.leaf address (upsert key value entries) next) := by
  refine ⟨ascending.upsert, fun entry member => ?_⟩
  rcases mem_keys_upsert.mp (List.mem_map_of_mem member) with same | old
  · exact same ▸ within
  · obtain ⟨kept, present, named⟩ := List.mem_map.mp old
    exact named ▸ inside kept present

/-- Cutting an ordered leaf in two nonempty parts separates them by the first
key on the right. -/
theorem ordered_leaf_cut {lo hi : Option Int32} {left right : List (Int32 × Nat)}
    {lead : Int32 × Nat} (ascending : Ascending (left ++ lead :: right)) (nonempty : left ≠ [])
    (inside : ∀ entry ∈ left ++ lead :: right, Within lo hi entry.1)
    (leftAddress rightAddress : Nat) (leftNext rightNext : Option Nat) :
    Between lo hi lead.1 ∧ Ordered 0 lo (some lead.1) (.leaf leftAddress left leftNext) ∧
      Ordered 0 (some lead.1) hi (.leaf rightAddress (lead :: right) rightNext) := by
  obtain ⟨leftAscending, rightAscending, across⟩ := List.pairwise_append.mp ascending
  have leadInside := inside lead (List.mem_append_right _ List.mem_cons_self)
  refine ⟨⟨fun low bound => ?_, leadInside.2⟩, ⟨leftAscending, fun entry member => ?_⟩,
    ⟨rightAscending, fun entry member => ?_⟩⟩
  · obtain ⟨entry, member⟩ := List.exists_mem_of_ne_nil left nonempty
    exact ((inside entry (List.mem_append_left _ member)).1 low bound).trans_lt
      (across entry member lead List.mem_cons_self)
  · exact (inside entry (List.mem_append_left _ member)).left_of_lt
      (across entry member lead List.mem_cons_self)
  · refine (inside entry (List.mem_append_right _ member)).right_of_le ?_
    rcases List.mem_cons.mp member with rfl | later
    · exact le_refl _
    · exact ((List.pairwise_cons.mp rightAscending).1 entry later).le

/-- The two leaves that `leaf_insert` leaves behind when the leaf is full. -/
theorem leaf_halves {lo hi : Option Int32} {entries : List (Int32 × Nat)} {key : Int32}
    {value : Nat} (ascending : Ascending entries) (inside : ∀ entry ∈ entries, Within lo hi entry.1)
    (within : Within lo hi key) (full : bptreeMaxKeys ≤ entries.length)
    (leftAddress rightAddress : Nat) (leftNext rightNext : Option Nat) :
    let temp := upsert key value entries
    let leftCount := (bptreeMaxKeys + 1) / 2
    let left := BpNode.leaf leftAddress (temp.take leftCount) leftNext
    let right := BpNode.leaf rightAddress (temp.drop leftCount) rightNext
    let promoted := ((temp.drop leftCount).headD (key, value)).1
    Between lo hi promoted ∧ Ordered 0 lo (some promoted) left ∧
      Ordered 0 (some promoted) hi right ∧ left.entries ++ right.entries = temp := by
  intro temp leftCount left right promoted
  have whole := ordered_leaf_upsert value ascending inside within leftAddress leftNext
  have long : leftCount < temp.length := by
    have counted := @length_upsert _ _ _ key value _ ascending
    simp only [bptreeMaxKeys] at full
    simp only [temp, leftCount, bptreeMaxKeys, counted]
    omega
  obtain ⟨lead, tail, dropped⟩ := List.exists_cons_of_ne_nil
    (List.ne_nil_of_length_pos (by rw [List.length_drop]; omega) : temp.drop leftCount ≠ [])
  have joined : temp.take leftCount ++ lead :: tail = temp := by
    rw [← dropped, List.take_append_drop]
  have nonempty : temp.take leftCount ≠ [] :=
    List.ne_nil_of_length_pos (by
      rw [List.length_take]
      simp only [leftCount, bptreeMaxKeys] at long ⊢
      omega)
  obtain ⟨between, leftOrdered, rightOrdered⟩ :=
    ordered_leaf_cut
      (by rw [joined]; exact whole.1 : Ascending (temp.take leftCount ++ lead :: tail))
      nonempty (by rw [joined]; exact whole.2) leftAddress rightAddress leftNext rightNext
  simp only [left, right, promoted, dropped, List.headD_cons, entries_leaf]
  exact ⟨between, leftOrdered, rightOrdered, joined⟩

/-- What `leaf_insert` overwrites in place is the binding of the key. -/
theorem leaf_rewritten {below above : List (Int32 × Nat)} {key : Int32} (value : Nat)
    (lower : ∀ entry ∈ below, entry.1 < key)
    (present : ((below ++ above)[below.length]?).any (·.1 == key) = true) :
    (below ++ above).set below.length (key, value) = upsert key value (below ++ above) ∧
      key ∈ (below ++ above).map Prod.fst := by
  cases above with
  | nil => simp at present
  | cons entry above =>
      obtain ⟨stored, old⟩ := entry
      have same : stored = key := by simpa using present
      subst same
      constructor
      · rw [upsert_of_present old lower, List.set_append_right _ _ (Nat.le_refl _), Nat.sub_self,
          List.set_cons_zero]
      · exact List.mem_map.mpr ⟨_, List.mem_append_right _ List.mem_cons_self, rfl⟩

/-- What `leaf_insert` shifts to the right of a new key is larger. -/
theorem leaf_larger {below above : List (Int32 × Nat)} {key : Int32}
    (ascending : Ascending (below ++ above)) (upper : ∀ entry ∈ above, key ≤ entry.1)
    (absent : ¬((below ++ above)[below.length]?).any (·.1 == key) = true) :
    ∀ entry ∈ above, key < entry.1 := by
  cases above with
  | nil => exact nofun
  | cons entry above =>
      have different : entry.1 ≠ key := by simpa using absent
      have first : key < entry.1 := lt_of_le_of_ne (upper entry List.mem_cons_self) different.symm
      intro other member
      rcases List.mem_cons.mp member with rfl | later
      · exact first
      · exact first.trans
          ((List.pairwise_cons.mp (List.pairwise_append.mp ascending).2.1).1 other later)

/-- A key between the entries below and above it is not among them. -/
theorem leaf_absent {below above : List (Int32 × Nat)} {key : Int32}
    (lower : ∀ entry ∈ below, entry.1 < key) (larger : ∀ entry ∈ above, key < entry.1) :
    key ∉ (below ++ above).map Prod.fst := by
  apply not_mem_keys
  intro entry stored
  rcases List.mem_append.mp stored with left | right
  · exact (lower entry left).ne
  · exact (larger entry right).ne'

/-- An insertion into a leaf that was refused nothing inserts the entry. -/
theorem leafInsert_spec {lo hi : Option Int32} {address : Nat} {entries : List (Int32 × Nat)}
    {next : Option Nat} {key : Int32} {value : Nat} {supply : NodeSupply}
    (ordered : Ordered 0 lo hi (.leaf address entries next)) (within : Within lo hi key)
    (granted : (leafInsert address entries next key value supply).2.2.heap.refused = false) :
    Inserted 0 lo hi entries key value (leafInsert address entries next key value supply).1
      (leafInsert address entries next key value supply).2.1 := by
  obtain ⟨ascending, inside⟩ := ordered
  have written := ordered_leaf_upsert value ascending inside within
  obtain ⟨below, above, rfl, position, lower, upper⟩ := leafFindPosition_spec key ascending
  unfold leafInsert at granted ⊢
  rw [position] at granted ⊢
  by_cases present : ((below ++ above)[below.length]?).any (·.1 == key)
  · -- The key is stored: its value is replaced in place.
    obtain ⟨rewritten, stored⟩ := leaf_rewritten value lower present
    simp only [present, ↓reduceIte, rewritten]
    exact Inserted.of_whole (decide_eq_false (not_not.mpr stored)).symm (written _ _)
      (entries_leaf _ _ _)
  · -- The key is new: it is written before the first larger key.
    have larger := leaf_larger ascending upper present
    have inserted : (below ++ above).insertIdx below.length (key, value) =
        upsert key value (below ++ above) := by
      rw [upsert_of_absent lower larger, insertIdx_length_append]
    have new : true = decide (key ∉ (below ++ above).map Prod.fst) :=
      (decide_eq_true (leaf_absent lower larger)).symm
    simp only [present, Bool.false_eq_true, ↓reduceIte, inserted] at granted ⊢
    by_cases room : (below ++ above).length < bptreeMaxKeys
    · simp only [room, ↓reduceIte]
      exact Inserted.of_whole new (written _ _) (entries_leaf _ _ _)
    · simp only [room, ↓reduceIte] at granted ⊢
      rcases ran : nodeCreate supply with ⟨created, after⟩
      rw [ran] at granted
      cases created with
      | none =>
          obtain ⟨_, impossible⟩ := (nodeCreate_granted ran granted).2
          cases impossible
      | some rightAddress =>
          refine ⟨new, nofun, ?_⟩
          intro promoted right halved
          cases halved
          exact leaf_halves ascending inside within (by omega) _ _ _ _

/-- A node that is not full takes in the right half of a split child; a full one cuts its
row at the middle separator. -/
theorem absorbSplit_cases {first : BpNode} {rest : List (Int32 × BpNode)} {childIdx : Nat}
    {promotedKey : Int32} {right : BpNode} {insertedNew : Bool} {supply : NodeSupply}
    (position : childIdx ≤ rest.length)
    (granted : (absorbSplit first rest childIdx promotedKey right insertedNew
      supply).2.2.heap.refused = false) :
    (rest.length < bptreeMaxKeys ∧
      absorbSplit first rest childIdx promotedKey right insertedNew supply =
        (.internal first (rest.insertIdx childIdx (promotedKey, right)),
          { split := none, insertedNew := insertedNew }, supply)) ∨
      (bptreeMaxKeys ≤ rest.length ∧ ∃ left middle behind address after,
        rest.insertIdx childIdx (promotedKey, right) = left ++ middle :: behind ∧
          left.length = (bptreeMaxKeys + 1) / 2 ∧ nodeCreate supply = (some address, after) ∧
            absorbSplit first rest childIdx promotedKey right insertedNew supply =
              (.internal first left,
                { split := some (middle.1, .internal middle.2 behind), insertedNew := insertedNew },
                after)) := by
  unfold absorbSplit at granted ⊢
  by_cases room : rest.length < bptreeMaxKeys
  · simp only [room, ↓reduceIte]
    exact .inl ⟨trivial, trivial⟩
  · simp only [room, ↓reduceIte] at granted ⊢
    rcases ran : nodeCreate supply with ⟨created, after⟩
    rw [ran] at granted
    cases created with
    | none =>
        obtain ⟨_, _, impossible⟩ := nodeCreate_granted ran granted
        cases impossible
    | some address =>
        have long : (bptreeMaxKeys + 1) / 2 <
            (rest.insertIdx childIdx (promotedKey, right)).length := by
          rw [List.length_insertIdx_of_le_length position]
          simp only [bptreeMaxKeys] at room ⊢
          omega
        generalize rest.insertIdx childIdx (promotedKey, right) = temp at long ⊢
        have middle := List.drop_eq_getElem_cons long
        have joined := List.take_append_drop ((bptreeMaxKeys + 1) / 2) temp
        rw [middle] at joined
        rw [middle, List.headD_cons]
        exact .inr ⟨Nat.not_lt.mp room, _, _, _, address, after, joined.symm,
          List.length_take_of_le long.le, rfl, rfl⟩

/-- Taking in the right half of a split child, the node keeps the row it was
given; when it is full it cuts the row at the middle separator. -/
theorem absorbSplit_spec {depth : Nat} {lo hi : Option Int32} {first : BpNode}
    {rest : List (Int32 × BpNode)} {childIdx : Nat} {promotedKey : Int32} {right : BpNode}
    {insertedNew : Bool} {supply : NodeSupply} {before : List (Int32 × Nat)} {key : Int32}
    {value : Nat} (new : insertedNew = decide (key ∉ before.map Prod.fst))
    (position : childIdx ≤ rest.length)
    (spaced : Spaced (Ordered depth) lo hi first (rest.insertIdx childIdx (promotedKey, right)))
    (held : rowEntries first (rest.insertIdx childIdx (promotedKey, right)) =
      upsert key value before)
    (granted : (absorbSplit first rest childIdx promotedKey right insertedNew
      supply).2.2.heap.refused = false) :
    Inserted (depth + 1) lo hi before key value
      (absorbSplit first rest childIdx promotedKey right insertedNew supply).1
      (absorbSplit first rest childIdx promotedKey right insertedNew supply).2.1 := by
  rcases absorbSplit_cases position granted with
    ⟨_, same⟩ | ⟨_, left, middle, behind, address, after, cut, _, _, same⟩ <;> rw [same]
  · exact Inserted.of_whole new spaced (by rw [entries_internal, held])
  · refine ⟨new, nofun, ?_⟩
    intro promoted node halved
    cases halved
    rw [cut] at spaced held
    obtain ⟨between, leftRow, rightRow⟩ := spaced.cut
    refine ⟨between, leftRow, rightRow, ?_⟩
    rw [entries_internal, entries_internal, ← held, rowEntries_append]

/-- The index of a child is one of a child. -/
theorem childIndexForKey_le (key : Int32) (rest : List (Int32 × BpNode)) :
    childIndexForKey key rest ≤ rest.length := by
  induction rest with
  | nil => exact Nat.le_refl 0
  | cons slot rest ih =>
      simp only [childIndexForKey, List.length_cons]
      split <;> omega

/-- **Insertion below a node.** While no allocation is refused, `node_insert`
writes the binding into the entries of the node, or of the node and its new
right sibling. The induction is on the depth of the node. -/
theorem nodeInsert_spec {depth : Nat} {lo hi : Option Int32} {node : BpNode} {key : Int32}
    {value : Nat} {supply : NodeSupply} (ordered : Ordered depth lo hi node)
    (within : Within lo hi key)
    (granted : (nodeInsert node key value supply).2.2.heap.refused = false) :
    Inserted depth lo hi node.entries key value (nodeInsert node key value supply).1
      (nodeInsert node key value supply).2.1 := by
  induction depth generalizing lo hi node supply with
  | zero =>
      cases node with
      | leaf address entries next =>
          rw [nodeInsert] at granted ⊢
          rw [entries_leaf]
          exact leafInsert_spec ordered within granted
      | internal first rest => exact ordered.elim
  | succ depth ih =>
      cases node with
      | leaf address entries next => exact ordered.elim
      | internal first rest =>
          rw [nodeInsert] at granted ⊢
          obtain ⟨childLo, childHi, below, above, focus⟩ :=
            Spaced.focus (fun _ _ _ covered => covered.within) ordered within
          have position := childIndexForKey_le key rest
          generalize childIndexForKey key rest = childIdx at granted focus position ⊢
          have inner := @ih childLo childHi (childAt first rest childIdx) supply focus.covered
            focus.inside
          rcases ran : nodeInsert (childAt first rest childIdx) key value supply with
            ⟨child, childResult, after⟩
          rw [ran] at granted inner
          have sameNew : decide (key ∉ (childAt first rest childIdx).entries.map Prod.fst) =
              decide (key ∉ (BpNode.internal first rest).entries.map Prod.fst) := by
            simp only [entries_internal, focus.mem_keys]
          rcases childResult with ⟨_ | ⟨promotedKey, right⟩, insertedNew⟩
          · have spec := inner granted
            obtain ⟨covered, held⟩ := spec.whole rfl
            obtain ⟨row, rowHeld⟩ := focus.rewritten child covered
            refine Inserted.of_whole (spec.insertedNew.trans sameNew) row ?_
            rw [entries_internal, entries_internal, focus.upsert, ← held, ← rowHeld]
          · have spec := inner (absorbSplit_granted granted)
            obtain ⟨between, leftCovered, rightCovered, held⟩ := spec.halves promotedKey right rfl
            obtain ⟨row, rowHeld⟩ :=
              focus.split child promotedKey right between leftCovered rightCovered
            refine absorbSplit_spec (spec.insertedNew.trans sameNew) ?_ row ?_ granted
            · rwa [length_setChild]
            · rw [rowHeld, entries_internal, focus.upsert, held]

/-- The descent of `bptree_search` reads the entries of the node. -/
theorem nodeSearch_eq_lookup {depth : Nat} {lo hi : Option Int32} {node : BpNode} {key : Int32}
    (ordered : Ordered depth lo hi node) (within : Within lo hi key) :
    nodeSearch node key = node.entries.lookup key := by
  induction depth generalizing lo hi node with
  | zero =>
      cases node with
      | internal first rest => exact ordered.elim
      | leaf address entries next =>
          rw [nodeSearch, entries_leaf]
          obtain ⟨below, above, rfl, position, lower, upper⟩ := leafFindPosition_spec key ordered.1
          rw [position, lookup_append_of_absent fun entry member => (lower entry member).ne,
            List.getElem?_append_right (Nat.le_refl _), Nat.sub_self]
          cases above with
          | nil => rfl
          | cons entry above =>
              rw [lookup_cons_eq_ite, List.getElem?_cons_zero, Option.bind_some]
              by_cases same : key = entry.1
              · simp only [same, ↓reduceIte]
              · have larger : ∀ other ∈ above, other.1 ≠ key := fun other member =>
                  ((upper entry List.mem_cons_self).trans_lt ((List.pairwise_cons.mp
                    (List.pairwise_append.mp ordered.1).2.1).1 other member)).ne'
                rw [lookup_eq_none_of_absent larger, if_neg (Ne.symm same), if_neg same]
  | succ depth ih =>
      cases node with
      | leaf address entries next => exact ordered.elim
      | internal first rest =>
          obtain ⟨childLo, childHi, below, above, focus⟩ :=
            Spaced.focus (fun _ _ _ covered => covered.within) ordered within
          rw [nodeSearch, ih focus.covered focus.inside, entries_internal, focus.entries,
            lookup_append_of_absent fun entry member => (focus.lower entry member).ne,
            lookup_append_left_of_absent _ fun entry member => (focus.upper entry member).ne']

/-- The tree holds exactly `entries`. -/
structure Represents (tree : BPlusTree) (entries : List (Int32 × Nat)) : Prop where
  ordered : ∀ root ∈ tree.root, ∃ depth, Ordered depth none none root
  held : ∀ root ∈ tree.root, root.entries = entries
  empty : tree.root = none → entries = []
  size : tree.size = entries.length

theorem represents_init : Represents bptreeInit [] :=
  ⟨nofun, nofun, fun _ => rfl, rfl⟩

/-- The entries that a tree represents ascend. -/
theorem Represents.ascending {tree : BPlusTree} {entries : List (Int32 × Nat)}
    (represents : Represents tree entries) : Ascending entries := by
  cases present : tree.root with
  | none => rw [represents.empty present]; exact List.Pairwise.nil
  | some root =>
      obtain ⟨depth, ordered⟩ := represents.ordered root present
      exact represents.held root present ▸ ordered.ascending

/-- `bptree_search` reads the entries. -/
theorem Represents.search {tree : BPlusTree} {entries : List (Int32 × Nat)}
    (represents : Represents tree entries) (key : Int32) :
    bptreeSearch tree key = entries.lookup key := by
  unfold bptreeSearch
  cases present : tree.root with
  | none => rw [represents.empty present]; rfl
  | some root =>
      obtain ⟨depth, ordered⟩ := represents.ordered root present
      rw [Option.bind_some, nodeSearch_eq_lookup ordered (within_none key),
        represents.held root present]

/-- The root to insert into holds what the tree holds. -/
theorem Represents.ensureRoot {tree : BPlusTree} {entries : List (Int32 × Nat)}
    (represents : Represents tree entries) {heap : Heap} {root : BpNode} {supply : NodeSupply}
    (ran : ensureRoot tree heap = (some root, supply)) :
    ∃ depth, Ordered depth none none root ∧ root.entries = entries := by
  rcases ensureRoot_cases ran with ⟨_, present, _⟩ | ⟨absent, created, _, isLeaf⟩
  · obtain ⟨depth, ordered⟩ := represents.ordered root present.symm
    exact ⟨depth, ordered, represents.held root present.symm⟩
  · obtain ⟨address, _, rfl⟩ := Option.map_eq_some_iff.mp isLeaf.symm
    refine ⟨0, ⟨List.Pairwise.nil, nofun⟩, ?_⟩
    rw [entries_leaf, represents.empty absent]

/-- What `bptree_insert` does after `node_insert` came back with `result`. -/
theorem Inserted.represents {entries : List (Int32 × Nat)} {depth : Nat} {key : Int32}
    {value size created : Nat} {root : BpNode} {result : InsertResult}
    (spec : Inserted depth none none entries key value root result)
    (ascending : Ascending entries) (counted : size = entries.length)
    (whole : result.split = none) :
    Represents
      { root := some root
        size := if result.insertedNew then size + 1 else size
        created := created }
      (upsert key value entries) := by
  obtain ⟨ordered, held⟩ := spec.whole whole
  refine ⟨fun _ same => ⟨depth, Option.some.inj same ▸ ordered⟩,
    fun _ same => Option.some.inj same ▸ held, nofun, ?_⟩
  rw [length_upsert ascending, spec.insertedNew, counted]
  by_cases stored : key ∈ entries.map Prod.fst <;> simp [stored]

/-- A root that splits is put below a new root. -/
theorem Inserted.represents_grown {entries : List (Int32 × Nat)} {depth : Nat}
    {key promoted : Int32}
    {value size created : Nat} {root right : BpNode} {result : InsertResult}
    (spec : Inserted depth none none entries key value root result)
    (ascending : Ascending entries) (counted : size = entries.length)
    (split : result.split = some (promoted, right)) :
    Represents
      { root := some (.internal root [(promoted, right)])
        size := if result.insertedNew then size + 1 else size
        created := created }
      (upsert key value entries) := by
  obtain ⟨between, left, covered, held⟩ := spec.halves promoted right split
  have grown : Inserted (depth + 1) none none entries key value (.internal root [(promoted, right)])
      { split := none, insertedNew := result.insertedNew } :=
    Inserted.of_whole spec.insertedNew ⟨between, left, covered⟩ (by
      rw [entries_internal, rowEntries_cons, rowEntries_nil, held])
  exact grown.represents ascending counted rfl

/-- **Insertion writes one binding.** While no allocation is refused,
`bptree_insert` succeeds. -/
theorem Represents.insert {tree : BPlusTree} {entries : List (Int32 × Nat)}
    (represents : Represents tree entries) {key : Int32} {value : Nat} {heap : Heap}
    (granted : (bptreeInsert tree key value heap).2.2.refused = false) :
    (bptreeInsert tree key value heap).1 = true ∧
      Represents (bptreeInsert tree key value heap).2.1 (upsert key value entries) := by
  have ascending := represents.ascending
  cases grantedInsert granted with
  | kept root node insertedNew supply after rooted ran granted returned =>
      obtain ⟨depth, ordered, held⟩ := represents.ensureRoot rooted
      have spec := @nodeInsert_spec depth none none root key value supply ordered (within_none key)
      rw [ran, held] at spec
      rw [returned]
      exact ⟨rfl, (spec granted).represents ascending represents.size rfl⟩
  | grown root node right promoted insertedNew supply after final address rooted ran granted _
      returned =>
      obtain ⟨depth, ordered, held⟩ := represents.ensureRoot rooted
      have spec := @nodeInsert_spec depth none none root key value supply ordered (within_none key)
      rw [ran, held] at spec
      rw [returned]
      exact ⟨rfl, (spec granted).represents_grown ascending represents.size rfl⟩

/-- `bptree_insert(&tree, key, value)` for every write in turn: the tree, the
heap, and whether every call returned 1. -/
def insertAll (writes : List (Int32 × Nat)) (heap : Heap) : BPlusTree × Heap × Bool :=
  writes.foldl (fun state write =>
    let (inserted, tree, heap) := bptreeInsert state.1 write.1 write.2 state.2.1
    (tree, heap, state.2.2 && inserted)) (bptreeInit, heap, true)

/-- The last insertion is made on the tree that the others lead to. -/
theorem insertAll_concat (writes : List (Int32 × Nat)) (write : Int32 × Nat) (heap : Heap) :
    insertAll (writes ++ [write]) heap =
      let state := insertAll writes heap
      let (inserted, tree, heap) := bptreeInsert state.1 write.1 write.2 state.2.1
      (tree, heap, state.2.2 && inserted) := by
  simp only [insertAll, List.foldl_append, List.foldl_cons, List.foldl_nil]

/-- What the empty tree has and every granted insertion keeps. -/
theorem insertAll_induction {invariant : BPlusTree → Prop} (init : invariant bptreeInit)
    (step : ∀ tree key value heap, invariant tree →
      (bptreeInsert tree key value heap).2.2.refused = false →
        invariant (bptreeInsert tree key value heap).2.1)
    (writes : List (Int32 × Nat)) {heap : Heap}
    (granted : (insertAll writes heap).2.1.refused = false) :
    invariant (insertAll writes heap).1 := by
  induction writes using List.reverseRecOn with
  | nil => exact init
  | append_singleton writes write ih =>
      rw [insertAll_concat] at granted ⊢
      exact step _ _ _ _ (ih (bptreeInsert_granted granted)) granted

/-- The tree left by a sequence of insertions holds what the writes leave. -/
theorem insertAll_represents (writes : List (Int32 × Nat)) {heap : Heap}
    (granted : (insertAll writes heap).2.1.refused = false) :
    (insertAll writes heap).2.2 = true ∧
      Represents (insertAll writes heap).1 (ofWrites writes) := by
  induction writes using List.reverseRecOn with
  | nil => exact ⟨rfl, represents_init⟩
  | append_singleton writes write ih =>
      rw [insertAll_concat] at granted ⊢
      simp only at granted ⊢
      obtain ⟨all, represents⟩ := ih (bptreeInsert_granted granted)
      obtain ⟨inserted, after⟩ := represents.insert granted
      rw [ofWrites_concat, all, inserted]
      exact ⟨rfl, after⟩

/-- Only without any write there is no root. -/
theorem writes_of_no_root {writes : List (Int32 × Nat)} {heap : Heap}
    (granted : (insertAll writes heap).2.1.refused = false)
    (absent : (insertAll writes heap).1.root = none) : writes = [] := by
  obtain ⟨_, represents⟩ := insertAll_represents writes granted
  have none : (ofWrites writes).length = 0 := by rw [represents.empty absent, List.length_nil]
  rw [length_ofWrites, Finset.card_eq_zero, List.toFinset_eq_empty_iff] at none
  exact List.map_eq_nil_iff.mp none

/-- **The B+ tree is a map.** While no allocation is refused, every insertion
succeeds, every search answers with the value of the last insertion of the key,
and the size is the number of distinct keys inserted. -/
theorem insertAll_is_map (writes : List (Int32 × Nat)) (heap : Heap)
    (granted : (insertAll writes heap).2.1.refused = false) (query : Int32) :
    (insertAll writes heap).2.2 = true ∧
      (∀ value, bptreeSearch (insertAll writes heap).1 query = some value ↔
        ∃ before after, writes = before ++ (query, value) :: after ∧
          query ∉ after.map Prod.fst) ∧
      (bptreeSearch (insertAll writes heap).1 query = none ↔ query ∉ writes.map Prod.fst) ∧
      (insertAll writes heap).1.size = (writes.map Prod.fst).toFinset.card := by
  obtain ⟨all, represents⟩ := insertAll_represents writes granted
  rw [represents.search, lookup_ofWrites, represents.size, length_ofWrites]
  exact ⟨all, lookup_reverse_eq_some_iff writes query, lookup_reverse_eq_none_iff writes query, rfl⟩

/-- Forty descending keys split the leftmost leaf; the last write of key 7 is found. -/
theorem insertAll_is_map_descending :
    bptreeSearch (insertAll ((List.range 40).map (fun i => (Int32.ofNat (40 - i), i)) ++ [(7, 99)])
      Heap.generous).1 7 = some 99 :=
  ((insertAll_is_map _ Heap.generous (by decide +kernel) 7).2.1 99).mpr
    ⟨_, [], rfl, List.not_mem_nil⟩

end MiniDbms.Bptree
