import MiniDbms.Bptree.OutOfMemory

/-! # Insertions while memory runs out

Any `node_create` of any insertion may be refused, and the insertions go on. Keys may be lost
then, but the tree stays a balanced search tree, and a key that is found has the value of its
last insertion (`MiniDbms.Bptree.insertAll_survives`).

Of a node, an insertion leaves either what it would leave if it were granted everything, or an
ordered and filled node with some of the entries (`MiniDbms.Bptree.Survived`).
-/

namespace MiniDbms.Bptree

open Foundation

section Entries

variable {K V : Type*} [LinearOrder K] {key : K} {value : V}

/-- Writing a new key keeps the entries. -/
theorem sublist_upsert {entries : List (K × V)} (absent : key ∉ entries.map Prod.fst) :
    entries.Sublist (upsert key value entries) := by
  induction entries with
  | nil => exact List.nil_sublist _
  | cons entry rest ih =>
      rw [List.map_cons, List.mem_cons, not_or] at absent
      unfold upsert
      split
      · exact (ih absent.2).cons_cons entry
      · rw [if_neg (Ne.symm absent.1)]
        exact List.sublist_cons_self _ _

/-- What some of the entries answer, all of them answer. -/
theorem lookup_of_sublist {part whole : List (K × V)} (sublist : part.Sublist whole)
    (ascending : Ascending whole) {query : K} {found : V}
    (answered : part.lookup query = some found) : whole.lookup query = some found := by
  obtain ⟨before, after, rfl, _⟩ := List.lookup_eq_some_iff.mp answered
  have member : (query, found) ∈ whole :=
    sublist.subset (List.mem_append_right before List.mem_cons_self)
  obtain ⟨left, right, rfl⟩ := List.append_of_mem member
  have smaller := (List.pairwise_append.mp ascending).2.2
  rw [lookup_append_of_absent fun entry stored => (smaller entry stored _ List.mem_cons_self).ne,
    lookup_cons_eq_ite, if_pos rfl]

end Entries

/-- The supply of an allocator that grants every node. -/
def NodeSupply.granting (supply : NodeSupply) : NodeSupply := { supply with heap := .generous }

theorem nodeCreate_granting (supply : NodeSupply) :
    ∃ after, nodeCreate supply.granting = (some supply.created, after) ∧
      after.heap.refused = false :=
  ⟨_, rfl, rfl⟩

/-- A new node has the next address. -/
theorem nodeCreate_some {supply after : NodeSupply} {address : Nat}
    (created : nodeCreate supply = (some address, after)) : address = supply.created := by
  unfold nodeCreate at created
  rcases answer : supply.heap.request sizeofBpNode with ⟨_ | _, heap⟩ <;>
    rw [answer] at created <;> cases created
  rfl

/-- `leaf_insert` does what it does when it is granted its node, or nothing. -/
theorem leafInsert_cases (address : Nat) (entries : List (Int32 × Nat)) (next : Option Nat)
    (key : Int32) (value : Nat) (supply : NodeSupply) :
    ((leafInsert address entries next key value supply.granting).2.2.heap.refused = false ∧
      (leafInsert address entries next key value supply).1 =
        (leafInsert address entries next key value supply.granting).1 ∧
      (leafInsert address entries next key value supply).2.1 =
        (leafInsert address entries next key value supply.granting).2.1) ∨
      (¬(entries[leafFindPosition key entries]?).any (·.1 == key) = true ∧
        (leafInsert address entries next key value supply).1 = .leaf address entries next ∧
        (leafInsert address entries next key value supply).2.1 =
          { split := none, insertedNew := false }) := by
  obtain ⟨granted, created, fresh⟩ := nodeCreate_granting supply
  unfold leafInsert
  by_cases present : (entries[leafFindPosition key entries]?).any (·.1 == key) = true
  · simp only [present, ↓reduceIte]
    exact .inl ⟨rfl, trivial, trivial⟩
  · by_cases room : entries.length < bptreeMaxKeys
    · simp only [present, room, Bool.false_eq_true, ↓reduceIte]
      exact .inl ⟨rfl, trivial, trivial⟩
    · simp only [present, room, Bool.false_eq_true, ↓reduceIte, created]
      rcases ran : nodeCreate supply with ⟨_ | right, after⟩
      · exact .inr ⟨id, rfl, rfl⟩
      · rw [nodeCreate_some ran]
        exact .inl ⟨fresh, rfl, rfl⟩

/-- `node_insert` after a split below does what it does when it is granted its node, or loses
the right half. -/
theorem absorbSplit_granting (first : BpNode) (rest : List (Int32 × BpNode)) (childIdx : Nat)
    (promotedKey : Int32) (right : BpNode) (insertedNew : Bool) (supply : NodeSupply) :
    ((absorbSplit first rest childIdx promotedKey right insertedNew
        supply.granting).2.2.heap.refused = false ∧
      (absorbSplit first rest childIdx promotedKey right insertedNew supply).1 =
        (absorbSplit first rest childIdx promotedKey right insertedNew supply.granting).1 ∧
      (absorbSplit first rest childIdx promotedKey right insertedNew supply).2.1 =
        (absorbSplit first rest childIdx promotedKey right insertedNew supply.granting).2.1) ∨
      ((absorbSplit first rest childIdx promotedKey right insertedNew supply).1 =
          .internal first rest ∧
        (absorbSplit first rest childIdx promotedKey right insertedNew supply).2.1 =
          { split := none, insertedNew := false }) := by
  obtain ⟨granted, created, fresh⟩ := nodeCreate_granting supply
  unfold absorbSplit
  by_cases room : rest.length < bptreeMaxKeys
  · simp only [room, ↓reduceIte]
    exact .inl ⟨rfl, trivial, trivial⟩
  · simp only [room, ↓reduceIte, created]
    rcases nodeCreate supply with ⟨_ | address, after⟩
    · exact .inr ⟨rfl, rfl⟩
    · exact .inl ⟨fresh, rfl, rfl⟩

/-- What an insertion leaves of a node of depth `depth` for the keys in `[lo, hi)` whose entries
were `before`, whatever was refused. -/
structure Survived (whole : Bool) (depth : Nat) (lo hi : Option Int32)
    (before : List (Int32 × Nat)) (key : Int32) (value : Nat) (after : BpNode)
    (result : InsertResult) : Prop where
  one : result.split = none →
    Ordered depth lo hi after ∧ Filled whole depth after ∧
      after.entries.Sublist (upsert key value before) ∧
      after.entries.length ≤ before.length + if result.insertedNew then 1 else 0
  two : ∀ promoted right, result.split = some (promoted, right) →
    Between lo hi promoted ∧ Ordered depth lo (some promoted) after ∧
      Ordered depth (some promoted) hi right ∧ Filled false depth after ∧
      Filled false depth right ∧ after.entries ++ right.entries = upsert key value before ∧
      (upsert key value before).length ≤ before.length + if result.insertedNew then 1 else 0

section Survived

variable {whole : Bool} {depth : Nat} {lo hi : Option Int32} {before : List (Int32 × Nat)}
  {key : Int32} {value : Nat} {after : BpNode} {result : InsertResult}

/-- An insertion that was granted everything. -/
theorem Inserted.survived (inserted : Inserted depth lo hi before key value after result)
    (filled : FilledAfter whole depth after result) (ascending : Ascending before) :
    Survived whole depth lo hi before key value after result := by
  have counted : (upsert key value before).length ≤
      before.length + if result.insertedNew then 1 else 0 := by
    rw [length_upsert ascending, inserted.insertedNew]
    by_cases stored : key ∈ before.map Prod.fst <;> simp [stored]
  constructor
  · intro complete
    obtain ⟨ordered, held⟩ := inserted.whole complete
    rw [held]
    exact ⟨ordered, filled.one complete, List.Sublist.refl _, counted⟩
  · intro promoted right halved
    obtain ⟨between, left, other, held⟩ := inserted.halves promoted right halved
    obtain ⟨leftFilled, rightFilled⟩ := filled.two promoted right halved
    exact ⟨between, left, other, leftFilled, rightFilled, held, counted⟩

/-- A leaf survives an insertion, whatever is refused to it. -/
theorem leafInsert_survived {address : Nat} {entries : List (Int32 × Nat)} {next : Option Nat}
    {supply : NodeSupply} (ordered : Ordered 0 lo hi (.leaf address entries next))
    (filled : Filled whole 0 (.leaf address entries next)) (within : Within lo hi key) :
    Survived whole 0 lo hi entries key value (leafInsert address entries next key value supply).1
      (leafInsert address entries next key value supply).2.1 := by
  rcases leafInsert_cases address entries next key value supply with
    ⟨granted, sameNode, sameResult⟩ | ⟨absent, sameNode, sameResult⟩ <;> rw [sameNode, sameResult]
  · exact (leafInsert_spec ordered within granted).survived (leafInsert_filled filled granted)
      ordered.1
  · refine ⟨fun _ => ⟨ordered, filled, ?_, ?_⟩, nofun⟩
    · obtain ⟨below, above, rfl, position, lower, upper⟩ := leafFindPosition_spec key ordered.1
      rw [position] at absent
      rw [entries_leaf]
      exact sublist_upsert (leaf_absent lower (leaf_larger ordered.1 upper absent))
    · exact (entries_leaf address entries next).symm ▸ Nat.le_refl _

/-- What is left of a node whose child was split, when `first` and `rest` are its row with the
left half of the child. -/
theorem absorbSplit_survived {first right : BpNode} {rest : List (Int32 × BpNode)}
    {childIdx : Nat} {promotedKey : Int32} {insertedNew : Bool} {supply : NodeSupply}
    {left tail : List (Int32 × Nat)} (position : childIdx ≤ rest.length)
    (filled : Filled whole (depth + 1) (.internal first rest))
    (rightFilled : Filled false depth right)
    (row : Spaced (Ordered depth) lo hi first rest)
    (spaced : Spaced (Ordered depth) lo hi first (rest.insertIdx childIdx (promotedKey, right)))
    (held : rowEntries first (rest.insertIdx childIdx (promotedKey, right)) =
      upsert key value before)
    (cut : upsert key value before = left ++ right.entries ++ tail)
    (kept : rowEntries first rest = left ++ tail) (ascending : Ascending before)
    (counted : (upsert key value before).length ≤
      before.length + if insertedNew then 1 else 0) :
    Survived whole (depth + 1) lo hi before key value
      (absorbSplit first rest childIdx promotedKey right insertedNew supply).1
      (absorbSplit first rest childIdx promotedKey right insertedNew supply).2.1 := by
  rcases absorbSplit_granting first rest childIdx promotedKey right insertedNew supply with
    ⟨granted, sameNode, sameResult⟩ | ⟨sameNode, sameResult⟩ <;> rw [sameNode, sameResult]
  · have full := absorbSplit_filled filled rightFilled position granted
    rcases absorbSplit_cases position granted with
      ⟨_, same⟩ | ⟨_, front, middle, behind, address, after, parts, _, _, same⟩
    · rw [same] at full ⊢
      refine ⟨fun _ => ⟨spaced, full.one rfl, ?_, ?_⟩, nofun⟩ <;> rw [entries_internal, held]
      exact counted
    · rw [same] at full ⊢
      refine ⟨nofun, ?_⟩
      rintro promoted node ⟨⟩
      obtain ⟨leftFilled, otherFilled⟩ := full.two _ _ rfl
      rw [parts] at spaced held
      obtain ⟨between, leftRow, rightRow⟩ := spaced.cut
      refine ⟨between, leftRow, rightRow, leftFilled, otherFilled, ?_, counted⟩
      rw [entries_internal, entries_internal, ← held, rowEntries_append]
  · -- The right half is linked from nowhere.
    refine ⟨fun _ => ⟨row, filled, ?_, ?_⟩, nofun⟩
    · rw [entries_internal, kept, cut]
      exact (List.sublist_append_left left right.entries).append_right tail
    · have many := rightFilled.sixteen
      have grown := @length_upsert Int32 Nat _ key value before ascending
      rw [entries_internal, kept]
      rw [cut] at grown
      simp only [List.length_append, Bool.false_eq_true, ↓reduceIte] at grown ⊢
      split at grown <;> omega

end Survived

/-- **Insertion below a node, whatever is refused.** The induction is on the depth of the
node. -/
theorem nodeInsert_survived {whole : Bool} {depth : Nat} {lo hi : Option Int32} {node : BpNode}
    {key : Int32} {value : Nat} {supply : NodeSupply} (ordered : Ordered depth lo hi node)
    (filled : Filled whole depth node) (within : Within lo hi key) :
    Survived whole depth lo hi node.entries key value (nodeInsert node key value supply).1
      (nodeInsert node key value supply).2.1 := by
  induction depth generalizing whole lo hi node supply with
  | zero =>
      cases node with
      | leaf address entries next =>
          rw [nodeInsert, entries_leaf]
          exact leafInsert_survived ordered filled within
      | internal first rest => exact ordered.elim
  | succ depth ih =>
      cases node with
      | leaf address entries next => exact ordered.elim
      | internal first rest =>
          have ascending := ordered.ascending
          obtain ⟨childLo, childHi, below, above, focus⟩ :=
            Spaced.focus (fun _ _ _ covered => covered.within) ordered within
          obtain ⟨some, least, most, inside⟩ := filled
          have position := childIndexForKey_le key rest
          rw [nodeInsert]
          generalize childIndexForKey key rest = childIdx at focus position ⊢
          have survived := @ih false childLo childHi (childAt first rest childIdx) supply
            focus.covered (inside _ (childAt_mem_children first rest childIdx)) focus.inside
          rcases ran : nodeInsert (childAt first rest childIdx) key value supply with
            ⟨child, childResult, after⟩
          rw [ran] at survived
          have rewritten : Filled false depth child → Filled whole (depth + 1)
              (.internal (setChild first rest childIdx child).1
                (setChild first rest childIdx child).2) := by
            intro childFilled
            refine ⟨by rwa [length_setChild], fun part => by rw [length_setChild]; exact least part,
              by rwa [length_setChild], fun other member => ?_⟩
            rcases mem_children_setChild member with rfl | old
            · exact childFilled
            · exact inside other old
          rw [entries_internal] at ascending ⊢
          rcases childResult with ⟨_ | ⟨promotedKey, right⟩, insertedNew⟩
          · obtain ⟨covered, childFilled, part, fewer⟩ := survived.one rfl
            obtain ⟨row, rowHeld⟩ := focus.rewritten child covered
            refine ⟨fun _ => ⟨row, rewritten childFilled, ?_, ?_⟩, fun _ _ split => ?_⟩
            · rw [entries_internal, rowHeld, focus.upsert]
              exact (part.append_right above).append_left below
            · rw [entries_internal, rowHeld, focus.entries]
              simp only [List.length_append] at fewer ⊢
              omega
            · cases split
          · obtain ⟨between, leftCovered, rightCovered, leftFilled, rightFilled, held, counted⟩ :=
              survived.two promotedKey right rfl
            obtain ⟨row, rowHeld⟩ := focus.rewritten child (leftCovered.widen between)
            obtain ⟨spaced, spacedHeld⟩ :=
              focus.split child promotedKey right between leftCovered rightCovered
            refine absorbSplit_survived ?_ (rewritten leftFilled) rightFilled row spaced ?_
              (?_ : _ = (below ++ child.entries) ++ right.entries ++ above) ?_ ascending ?_
            · rwa [length_setChild]
            · rw [spacedHeld, focus.upsert, held]
            · rw [focus.upsert, ← held]
              simp only [List.append_assoc]
            · rw [rowHeld, List.append_assoc]
            · rw [focus.upsert, focus.entries]
              simp only [List.length_append] at counted ⊢
              omega

/-- Every search finds what `answers` says or nothing, in a balanced search tree. -/
structure Surviving (tree : BPlusTree) (answers : Int32 → Option Nat) : Prop where
  shape : ∀ root ∈ tree.root, ∃ depth, Ordered depth none none root ∧ Filled true depth root
  found : ∀ root ∈ tree.root, ∀ query value, root.entries.lookup query = some value →
    answers query = some value
  counted : ∀ root ∈ tree.root, root.entries.length ≤ tree.size

namespace Surviving

variable {tree : BPlusTree} {answers : Int32 → Option Nat}

theorem init (answers : Int32 → Option Nat) : Surviving bptreeInit answers :=
  ⟨nofun, nofun, nofun⟩

/-- A tree survives when its root is ordered and filled and finds nothing but answers. -/
theorem of_root {root : BpNode} {depth size : Nat} (ordered : Ordered depth none none root)
    (filled : Filled true depth root)
    (found : ∀ query value, root.entries.lookup query = some value → answers query = some value)
    (counted : root.entries.length ≤ size) (created : Nat) :
    Surviving { root := some root, size := size, created := created } answers := by
  refine ⟨?_, ?_, ?_⟩ <;> rintro _ ⟨⟩
  · exact ⟨depth, ordered, filled⟩
  · exact found
  · exact counted

/-- A key that is found has the value of the answers. -/
theorem search (surviving : Surviving tree answers) {query : Int32} {value : Nat}
    (found : bptreeSearch tree query = some value) : answers query = some value := by
  obtain ⟨root, present, found⟩ := Option.bind_eq_some_iff.mp found
  obtain ⟨depth, ordered, _⟩ := surviving.shape root present
  rw [nodeSearch_eq_lookup ordered (within_none query)] at found
  exact surviving.found root present query value found

/-- No more keys are found than `tree->size` says. -/
theorem ncard_le (surviving : Surviving tree answers) :
    {query | bptreeSearch tree query ≠ none}.ncard ≤ tree.size := by
  cases present : tree.root with
  | none => simp only [bptreeSearch, present, Option.bind_none, ne_eq, not_true_eq_false,
      Set.ofPred_false, Set.ncard_empty, Nat.zero_le]
  | some root =>
      obtain ⟨depth, ordered, _⟩ := surviving.shape root present
      have holds : Holds tree root.entries := ⟨root, depth, present, ordered, rfl⟩
      rw [ncard_found holds.search holds.ascending]
      exact surviving.counted root present

/-- The root to insert into has survived too. -/
theorem ensureRoot (surviving : Surviving tree answers) {heap : Heap} {root : BpNode}
    {supply : NodeSupply} (ran : ensureRoot tree heap = (some root, supply)) :
    (∃ depth, Ordered depth none none root ∧ Filled true depth root) ∧
      (∀ query value, root.entries.lookup query = some value → answers query = some value) ∧
      root.entries.length ≤ tree.size := by
  rcases ensureRoot_cases ran with ⟨_, present, _⟩ | ⟨_, created, _, isLeaf⟩
  · exact ⟨surviving.shape root present.symm, surviving.found root present.symm,
      surviving.counted root present.symm⟩
  · obtain ⟨address, _, rfl⟩ := Option.map_eq_some_iff.mp isLeaf.symm
    rw [entries_leaf]
    exact ⟨⟨0, ⟨List.Pairwise.nil, nofun⟩, nofun, Nat.zero_le _⟩, nofun, Nat.zero_le _⟩

/-- What a root holds of the entries of an old root and of one more binding. -/
theorem found_upsert {before part : List (Int32 × Nat)} {key : Int32} {value : Nat}
    (found : ∀ query value, before.lookup query = some value → answers query = some value)
    (sublist : part.Sublist (upsert key value before)) (ascending : Ascending before)
    {query : Int32} {answer : Nat} (answered : part.lookup query = some answer) :
    Function.update answers key (some value) query = some answer := by
  have whole := lookup_of_sublist sublist ascending.upsert answered
  rw [lookup_upsert] at whole
  by_cases same : query = key
  · subst same
    rwa [if_pos rfl, ← Function.update_self query (some value) answers] at whole
  · rw [if_neg same] at whole
    rw [Function.update_of_ne same]
    exact found query answer whole

/-- **Insertion, whatever is refused.** -/
theorem insert (surviving : Surviving tree answers) (key : Int32) (value : Nat) (heap : Heap) :
    Surviving (bptreeInsert tree key value heap).2.1
      (Function.update answers key (some value)) := by
  unfold bptreeInsert
  rcases rooted : Bptree.ensureRoot tree heap with ⟨_ | root, supply⟩
  · rcases ensureRoot_cases rooted with ⟨present, same, _⟩ | ⟨absent, _⟩
    · exact absurd same.symm present
    · dsimp only
      refine ⟨?_, ?_, ?_⟩ <;> rw [absent] <;> intro root present <;> cases present
  · obtain ⟨⟨depth, ordered, filled⟩, found, counted⟩ := surviving.ensureRoot rooted
    have survived := @nodeInsert_survived true depth none none root key value supply ordered filled
      (within_none key)
    rcases ran : nodeInsert root key value supply with ⟨node, ⟨split, insertedNew⟩, after⟩
    rw [ran] at survived
    simp only [ran]
    have size : root.entries.length + (if insertedNew then 1 else 0) ≤
        if insertedNew then tree.size + 1 else tree.size := by
      split <;> omega
    rcases split with _ | ⟨promoted, right⟩
    · obtain ⟨nodeOrdered, nodeFilled, part, fewer⟩ := survived.one rfl
      exact .of_root nodeOrdered nodeFilled (fun _ _ => found_upsert found part ordered.ascending)
        (fewer.trans size) _
    · obtain ⟨between, left, other, leftFilled, rightFilled, held, fewer⟩ :=
        survived.two promoted right rfl
      have part : node.entries.Sublist (upsert key value root.entries) :=
        held ▸ List.sublist_append_left _ _
      have grown : (BpNode.internal node [(promoted, right)]).entries =
          upsert key value root.entries := by
        rw [entries_internal, rowEntries_cons, rowEntries_nil, held]
      rcases nodeCreate after with ⟨_ | address, final⟩
      · -- Without a new root the right half is lost.
        exact .of_root (left.widen between) leftFilled.whole
          (fun _ _ => found_upsert found part ordered.ascending)
          (part.length_le.trans (fewer.trans size)) _
      · have both : Filled true (depth + 1) (.internal node [(promoted, right)]) := by
          refine ⟨Nat.le_refl 1, fun (part : true = false) => ?_, Nat.le_add_left 1 30,
            fun child member => ?_⟩
          · cases part
          · rcases mem_children_cons.mp member with rfl | ⟨slot, present, rfl⟩
            · exact leftFilled
            · rw [List.mem_singleton.mp present]
              exact rightFilled
        have halves : Ordered (depth + 1) none none (.internal node [(promoted, right)]) :=
          ⟨between, left, other⟩
        exact .of_root halves both
          (fun _ _ => found_upsert found (grown ▸ List.Sublist.refl _) ordered.ascending)
          (grown ▸ fewer.trans size) _

end Surviving

/-- `bptree_insert` fails only when it is refused a node. -/
theorem bptreeInsert_returns {tree : BPlusTree} {key : Int32} {value : Nat} {heap : Heap}
    (granted : (bptreeInsert tree key value heap).2.2.refused = false) :
    (bptreeInsert tree key value heap).1 = true := by
  cases grantedInsert granted with
  | kept root node insertedNew supply after rooted ran granted returned => rw [returned]
  | grown root node right promoted insertedNew supply after final address rooted ran granted
      created returned => rw [returned]

/-- The supply with one more refusal on record, if there was one. -/
def NodeSupply.noting (supply : NodeSupply) (refusal : Bool) : NodeSupply :=
  { supply with heap := supply.heap.noting refusal }

/-- The flag of an earlier refusal does not change what is created. -/
theorem nodeCreate_noting (supply : NodeSupply) (refusal : Bool) :
    nodeCreate (supply.noting refusal) =
      ((nodeCreate supply).1, (nodeCreate supply).2.noting refusal) := by
  unfold nodeCreate
  simp only [NodeSupply.noting, Heap.request_noting]
  rcases supply.heap.request sizeofBpNode with ⟨_ | _, heap⟩ <;> rfl

/-- What `leaf_insert` does to the leaf does not depend on the refusals on record. -/
theorem leafInsert_noting (address : Nat) (entries : List (Int32 × Nat)) (next : Option Nat)
    (key : Int32) (value : Nat) (supply : NodeSupply) (refusal : Bool) :
    leafInsert address entries next key value (supply.noting refusal) =
      ((leafInsert address entries next key value supply).1,
        (leafInsert address entries next key value supply).2.1,
        (leafInsert address entries next key value supply).2.2.noting refusal) := by
  unfold leafInsert
  simp only [nodeCreate_noting]
  split
  · rfl
  · split
    · rfl
    · rcases nodeCreate supply with ⟨_ | rightAddress, after⟩ <;> rfl

/-- What `node_insert` does after a split does not depend on the refusals on record. -/
theorem absorbSplit_noting (first : BpNode) (rest : List (Int32 × BpNode)) (childIdx : Nat)
    (promotedKey : Int32) (right : BpNode) (insertedNew : Bool) (supply : NodeSupply)
    (refusal : Bool) :
    absorbSplit first rest childIdx promotedKey right insertedNew (supply.noting refusal) =
      ((absorbSplit first rest childIdx promotedKey right insertedNew supply).1,
        (absorbSplit first rest childIdx promotedKey right insertedNew supply).2.1,
        (absorbSplit first rest childIdx promotedKey right insertedNew supply).2.2.noting
          refusal) := by
  unfold absorbSplit
  simp only [nodeCreate_noting]
  split
  · rfl
  · rcases nodeCreate supply with ⟨_ | address, after⟩ <;> rfl

/-- What `node_insert` does to the nodes does not depend on the refusals on record. -/
theorem nodeInsert_noting (node : BpNode) (key : Int32) (value : Nat) (supply : NodeSupply)
    (refusal : Bool) :
    nodeInsert node key value (supply.noting refusal) =
      ((nodeInsert node key value supply).1, (nodeInsert node key value supply).2.1,
        (nodeInsert node key value supply).2.2.noting refusal) := by
  fun_induction nodeInsert node key value supply with
  | case1 address entries next =>
      rw [nodeInsert]
      exact leafInsert_noting address entries next key value supply refusal
  | case2 first rest childIdx child childResult after ran first' rest' set whole ih =>
      rw [ran] at ih
      rw [nodeInsert]
      simp only [childIdx] at ih set
      simp only [ih, set, whole]
  | case3 first rest childIdx child childResult after ran first' rest' set promoted right
      split ih =>
      rw [ran] at ih
      rw [nodeInsert]
      simp only [childIdx] at ih set ⊢
      simp only [ih, set, split, absorbSplit_noting]

/-- What `bptree_insert` does to the tree does not depend on the refusals on record. -/
theorem bptreeInsert_noting (tree : BPlusTree) (key : Int32) (value : Nat) (heap : Heap)
    (refusal : Bool) :
    bptreeInsert tree key value (heap.noting refusal) =
      ((bptreeInsert tree key value heap).1, (bptreeInsert tree key value heap).2.1,
        (bptreeInsert tree key value heap).2.2.noting refusal) := by
  have rooted : ensureRoot tree (heap.noting refusal) =
      ((ensureRoot tree heap).1, (ensureRoot tree heap).2.noting refusal) := by
    have created := nodeCreate_noting { heap := heap, created := tree.created } refusal
    simp only [NodeSupply.noting] at created
    unfold ensureRoot
    cases tree.root with
    | some root => rfl
    | none =>
        simp only [created]
        rcases nodeCreate { heap := heap, created := tree.created } with ⟨_ | address, after⟩ <;>
          rfl
  unfold bptreeInsert
  rw [rooted]
  rcases ensureRoot tree heap with ⟨_ | root, supply⟩
  · rfl
  · simp only [nodeInsert_noting]
    rcases nodeInsert root key value supply with ⟨node, ⟨_ | ⟨promoted, right⟩, insertedNew⟩, after⟩
    · rfl
    · simp only [nodeCreate_noting]
      rcases nodeCreate after with ⟨_ | address, final⟩ <;> rfl

/-- The tree is that of the same allocator with nothing on record. -/
theorem bptreeInsert_fresh (tree : BPlusTree) (key : Int32) (value : Nat) (heap : Heap) :
    (bptreeInsert tree key value heap.fresh).1 = (bptreeInsert tree key value heap).1 ∧
      (bptreeInsert tree key value heap.fresh).2.1 = (bptreeInsert tree key value heap).2.1 := by
  have noted := bptreeInsert_noting tree key value heap.fresh heap.refused
  rw [Heap.fresh_noting] at noted
  rw [noted]
  exact ⟨rfl, rfl⟩

/-- After an insertion that was refused nothing, every search answers as before, but for the key
that was written. -/
theorem Surviving.search_insert {tree : BPlusTree} {answers : Int32 → Option Nat}
    (surviving : Surviving tree answers) {key : Int32} {value : Nat} {heap : Heap}
    (granted : (bptreeInsert tree key value heap.fresh).2.2.refused = false) (query : Int32) :
    bptreeSearch (bptreeInsert tree key value heap).2.1 query =
      if query = key then some value else bptreeSearch tree query := by
  -- Only the size may differ from that of a tree that lost nothing.
  let entries := tree.root.elim [] BpNode.entries
  let whole : BPlusTree := { tree with size := entries.length }
  have represents : Represents whole entries := by
    refine ⟨fun root present => ?_, fun root present => ?_, fun absent => ?_, rfl⟩
    · obtain ⟨depth, ordered, _⟩ := surviving.shape root present
      exact ⟨depth, ordered⟩
    · simp only [entries, show tree.root = some root from present, Option.elim_some]
    · simp only [entries, show tree.root = none from absent, Option.elim_none]
  have same : (bptreeInsert whole key value heap.fresh).2.1.root =
        (bptreeInsert tree key value heap.fresh).2.1.root ∧
      (bptreeInsert whole key value heap.fresh).2.2 =
        (bptreeInsert tree key value heap.fresh).2.2 := by
    unfold bptreeInsert
    rw [show Bptree.ensureRoot whole heap.fresh = Bptree.ensureRoot tree heap.fresh from rfl]
    rcases Bptree.ensureRoot tree heap.fresh with ⟨_ | root, supply⟩
    · exact ⟨rfl, rfl⟩
    · simp only
      rcases nodeInsert root key value supply with
        ⟨node, ⟨_ | ⟨promoted, right⟩, insertedNew⟩, after⟩
      · exact ⟨rfl, rfl⟩
      · simp only
        rcases nodeCreate after with ⟨_ | address, final⟩ <;> exact ⟨rfl, rfl⟩
  obtain ⟨_, inserted⟩ := represents.insert (same.2 ▸ granted)
  have before : bptreeSearch tree query = entries.lookup query := represents.search query
  have after := inserted.search query
  rw [bptreeSearch, same.1, ← bptreeSearch, (bptreeInsert_fresh tree key value heap).2] at after
  rw [after, lookup_upsert, before]

/-- After any insertions and refusals a key that is found has the last value inserted for it. -/
theorem surviving_insertAll (writes : List (Int32 × Nat)) (heap : Heap) :
    Surviving (insertAll writes heap).1 fun query => writes.reverse.lookup query := by
  induction writes using List.reverseRecOn with
  | nil => exact .init _
  | append_singleton writes write ih =>
      have answers : (fun query => (writes ++ [write]).reverse.lookup query) =
          Function.update (fun query => writes.reverse.lookup query) write.1 (some write.2) := by
        funext query
        rw [List.reverse_concat, lookup_cons_eq_ite, Function.update_apply]
      rw [insertAll_concat, answers]
      exact ih.insert write.1 write.2 _

/-- **Insertions while memory runs out.** Whatever is refused to a sequence of insertions, a key
that is found has the value of its last insertion, `tree->size` is not less than the number of
keys found, and the tree is balanced: every node has the shape that it has when nothing is
refused, the keys found bound the depth, and a search visits one node on every level. -/
theorem insertAll_survives (writes : List (Int32 × Nat)) (heap : Heap) :
    let tree := (insertAll writes heap).1
    let found := {query | bptreeSearch tree query ≠ none}
    (∀ query value, bptreeSearch tree query = some value →
        ∃ before after, writes = before ++ (query, value) :: after ∧
          query ∉ after.map Prod.fst) ∧
      found.ncard ≤ tree.size ∧
      ∀ root ∈ tree.root, ∃ depth,
        (∀ level node, Reached root level node → NodeShape depth level node) ∧
        (depth = 0 ∨ 2 * 16 ^ depth ≤ found.ncard) ∧
        ∀ key, (searchPath root key).length = depth + 1 := by
  intro tree found
  have surviving := surviving_insertAll writes heap
  refine ⟨fun query value found => ?_, surviving.ncard_le, fun root present => ?_⟩
  · exact (lookup_reverse_eq_some_iff writes query value).mp (surviving.search found)
  · obtain ⟨depth, ordered, filled⟩ := surviving.shape root present
    have holds : Holds tree root.entries := ⟨root, depth, present, ordered, rfl⟩
    refine ⟨depth, fun level node => nodeShape_of_invariants ordered filled, ?_, filled.searchPath⟩
    rw [show found.ncard = _ from ncard_found holds.search holds.ascending]
    exact filled.entries_whole

end MiniDbms.Bptree
