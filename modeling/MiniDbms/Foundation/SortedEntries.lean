import Mathlib.Data.Finset.Card
import Mathlib.Data.Set.Card
import Mathlib.Order.Defs.LinearOrder

/-! # Finite maps as ascending association lists

A list of key-value pairs whose keys strictly ascend is a finite map.
`MiniDbms.Foundation.upsert` writes one binding into it, and passes through any
stretch of the list that lies entirely on one side of the key, which is what lets
a search structure apply it to one of its parts
(`MiniDbms.Foundation.upsert_append_of_lt`,
`MiniDbms.Foundation.upsert_append_of_gt`). A list built by writing one binding
after another answers with the last write
(`MiniDbms.Foundation.lookup_ofWrites`) and has one entry for each distinct key
(`MiniDbms.Foundation.length_ofWrites`).
-/

namespace MiniDbms.Foundation

/-- Inserting at the seam of two lists. -/
theorem insertIdx_length_append {α : Type*} (before after : List α) (item : α) :
    (before ++ after).insertIdx before.length item = before ++ item :: after := by
  induction before with
  | nil => rfl
  | cons head before ih =>
      simp only [List.cons_append, List.length_cons, List.insertIdx_succ_cons, ih]

variable {K V : Type*} [LinearOrder K]

/-- The keys of the list strictly ascend. -/
def Ascending (entries : List (K × V)) : Prop :=
  entries.Pairwise fun earlier later => earlier.1 < later.1

/-- Write one binding: replace the entry of `key`, or insert one before the
first larger key. -/
def upsert (key : K) (value : V) : List (K × V) → List (K × V)
  | [] => [(key, value)]
  | entry :: rest =>
      if entry.1 < key then entry :: upsert key value rest
      else if entry.1 = key then (key, value) :: rest
      else (key, value) :: entry :: rest

/-- Lookup compares with the first key. -/
theorem lookup_cons_eq_ite (query : K) (entry : K × V) (rest : List (K × V)) :
    (entry :: rest).lookup query =
      if query = entry.1 then some entry.2 else rest.lookup query := by
  obtain ⟨key, value⟩ := entry
  by_cases same : query = key
  · simp only [same, List.lookup_cons, beq_self_eq_true, ↓reduceIte]
  · simp only [List.lookup_cons, beq_false_of_ne same, same, ↓reduceIte]

omit [LinearOrder K] in
/-- A key that differs from all is not among them. -/
theorem not_mem_keys {entries : List (K × V)} {key : K}
    (different : ∀ entry ∈ entries, entry.1 ≠ key) : key ∉ entries.map Prod.fst := by
  intro member
  obtain ⟨entry, stored, named⟩ := List.mem_map.mp member
  exact different entry stored named

section Upsert

variable {key : K} {value : V}

/-- Entries below the key are passed over. -/
theorem upsert_append_of_lt {below : List (K × V)} (rest : List (K × V))
    (lower : ∀ entry ∈ below, entry.1 < key) :
    upsert key value (below ++ rest) = below ++ upsert key value rest := by
  induction below with
  | nil => rfl
  | cons entry below ih =>
      have first : entry.1 < key := lower entry List.mem_cons_self
      simp only [List.cons_append, upsert, first, ↓reduceIte]
      rw [ih fun other member => lower other (List.mem_cons_of_mem _ member)]

/-- Entries above the key are left alone. -/
theorem upsert_append_of_gt (entries : List (K × V)) {above : List (K × V)}
    (upper : ∀ entry ∈ above, key < entry.1) :
    upsert key value (entries ++ above) = upsert key value entries ++ above := by
  induction entries with
  | nil =>
      cases above with
      | nil => rfl
      | cons entry above =>
          have greater : key < entry.1 := upper entry List.mem_cons_self
          simp only [List.nil_append, upsert, not_lt_of_gt greater, greater.ne', ↓reduceIte,
            List.cons_append]
  | cons entry entries ih =>
      simp only [List.cons_append, upsert, ih]
      split
      · rfl
      · split <;> rfl

/-- A key that is absent is written between the smaller and the larger ones. -/
theorem upsert_of_absent {below above : List (K × V)}
    (lower : ∀ entry ∈ below, entry.1 < key) (upper : ∀ entry ∈ above, key < entry.1) :
    upsert key value (below ++ above) = below ++ (key, value) :: above := by
  rw [upsert_append_of_lt _ lower]
  exact congrArg (below ++ ·) (upsert_append_of_gt [] upper)

/-- A key that is present keeps its place and takes the new value. -/
theorem upsert_of_present {below above : List (K × V)} (old : V)
    (lower : ∀ entry ∈ below, entry.1 < key) :
    upsert key value (below ++ (key, old) :: above) = below ++ (key, value) :: above := by
  rw [upsert_append_of_lt _ lower]
  simp only [upsert, lt_irrefl, ↓reduceIte]

/-- The keys are the new one and the old ones. -/
theorem mem_keys_upsert {entries : List (K × V)} {query : K} :
    query ∈ (upsert key value entries).map Prod.fst ↔
      query = key ∨ query ∈ entries.map Prod.fst := by
  induction entries with
  | nil => simp only [upsert, List.map_cons, List.map_nil, List.mem_singleton, List.not_mem_nil,
      or_false]
  | cons entry rest ih =>
      simp only [upsert]
      split
      · simp only [List.map_cons, List.mem_cons, ih]
        exact or_left_comm
      · split
        · next same => simp only [List.map_cons, List.mem_cons, same, ← or_assoc, or_self]
        · simp only [List.map_cons, List.mem_cons]

/-- The keys still ascend. -/
theorem Ascending.upsert {entries : List (K × V)} (ascending : Ascending entries) :
    Ascending (upsert key value entries) := by
  induction entries with
  | nil => exact List.pairwise_singleton _ _
  | cons entry rest ih =>
      obtain ⟨head, tail⟩ := List.pairwise_cons.mp ascending
      simp only [Foundation.upsert]
      split
      · next lower =>
          refine List.pairwise_cons.mpr ⟨fun other member => ?_, ih tail⟩
          rcases mem_keys_upsert.mp (List.mem_map_of_mem member) with same | old
          · exact same ▸ lower
          · obtain ⟨kept, inside, named⟩ := List.mem_map.mp old
            exact named ▸ head kept inside
      · split
        · next same =>
            exact List.pairwise_cons.mpr ⟨fun other member => same ▸ head other member, tail⟩
        · next upper different =>
            have below : key < entry.1 := lt_of_le_of_ne (not_lt.mp upper) (Ne.symm different)
            refine List.pairwise_cons.mpr ⟨fun other member => ?_, ascending⟩
            rcases List.mem_cons.mp member with rfl | later
            · exact below
            · exact below.trans (head other later)

/-- The new key has its value, and the others have theirs. -/
theorem lookup_upsert {entries : List (K × V)} (query : K) :
    (upsert key value entries).lookup query =
      if query = key then some value else entries.lookup query := by
  induction entries with
  | nil => exact lookup_cons_eq_ite query (key, value) []
  | cons entry rest ih =>
      simp only [Foundation.upsert]
      split
      · next lower =>
          simp only [lookup_cons_eq_ite, ih]
          by_cases same : query = entry.1
          · simp only [same, lower.ne, ↓reduceIte]
          · simp only [same, ↓reduceIte]
      · split
        · next same =>
            simp only [lookup_cons_eq_ite, same]
            split <;> rfl
        · simp only [lookup_cons_eq_ite]

/-- A key that was absent is one more. -/
theorem length_upsert {entries : List (K × V)} (ascending : Ascending entries) :
    (upsert key value entries).length =
      entries.length + if key ∈ entries.map Prod.fst then 0 else 1 := by
  induction entries with
  | nil => rfl
  | cons entry rest ih =>
      obtain ⟨head, tail⟩ := List.pairwise_cons.mp ascending
      simp only [Foundation.upsert]
      split
      · next lower =>
          simp only [List.length_cons, ih tail, List.map_cons, List.mem_cons, lower.ne', false_or]
          omega
      · split
        · next same =>
            simp only [List.length_cons, List.map_cons, List.mem_cons, same, true_or, ↓reduceIte]
        · next upper different =>
            have absent : key ∉ rest.map Prod.fst := by
              intro member
              obtain ⟨other, inside, named⟩ := List.mem_map.mp member
              exact upper (named ▸ head other inside)
            simp only [List.length_cons, List.map_cons, List.mem_cons, Ne.symm different, absent,
              or_self, ↓reduceIte]

end Upsert

/-- A list that does not mention the key has no answer. -/
theorem lookup_eq_none_of_absent {query : K} {entries : List (K × V)}
    (absent : ∀ entry ∈ entries, entry.1 ≠ query) : entries.lookup query = none :=
  List.lookup_eq_none_iff.mpr fun entry member => bne_iff_ne.mpr (absent entry member).symm

/-- Lookup skips a stretch of the list that does not mention the key. -/
theorem lookup_append_of_absent {query : K} {before after : List (K × V)}
    (absent : ∀ entry ∈ before, entry.1 ≠ query) :
    (before ++ after).lookup query = after.lookup query := by
  rw [List.lookup_append, lookup_eq_none_of_absent absent, Option.none_or]

/-- Lookup does not reach a stretch behind that does not mention the key. -/
theorem lookup_append_left_of_absent {query : K} (before : List (K × V)) {after : List (K × V)}
    (absent : ∀ entry ∈ after, entry.1 ≠ query) :
    (before ++ after).lookup query = before.lookup query := by
  rw [List.lookup_append, lookup_eq_none_of_absent absent, Option.or_none]

section LastWrite

variable (writes : List (K × V)) (query : K)

/-- Read backwards, a list of writes answers with the last write of the key. -/
theorem lookup_reverse_eq_some_iff (value : V) :
    writes.reverse.lookup query = some value ↔
      ∃ before after, writes = before ++ (query, value) :: after ∧
        query ∉ after.map Prod.fst := by
  induction writes using List.reverseRecOn with
  | nil => simp only [List.reverse_nil, List.lookup_nil, reduceCtorEq, List.nil_eq,
      List.append_eq_nil_iff, List.cons_ne_nil, and_false, false_and, exists_false]
  | append_singleton writes write ih =>
      rw [List.reverse_concat, lookup_cons_eq_ite]
      split
      · next same =>
          obtain ⟨key, written⟩ := write
          cases same
          constructor
          · rintro ⟨⟩
            exact ⟨writes, [], rfl, List.not_mem_nil⟩
          · rintro ⟨before, after, split, absent⟩
            rcases List.eq_nil_or_concat' after with rfl | ⟨others, last, rfl⟩
            · exact congrArg some (Prod.ext_iff.mp (List.append_inj_right' split rfl
                |> List.singleton_inj.mp)).2
            · rw [← List.cons_append, ← List.append_assoc] at split
              have same := List.singleton_inj.mp (List.append_inj_right' split rfl)
              exact absurd (by simp only [← same, List.map_append, List.map_cons, List.map_nil,
                List.mem_append, List.mem_singleton, or_true]) absent
      · next different =>
          rw [ih]
          constructor
          · rintro ⟨before, after, rfl, absent⟩
            refine ⟨before, after ++ [write], ?_, ?_⟩
            · simp only [List.append_assoc, List.cons_append]
            · simp only [List.map_append, List.map_cons, List.map_nil, List.mem_append,
                List.mem_singleton, absent, different, or_self, not_false_eq_true]
          · rintro ⟨before, after, split, absent⟩
            rcases List.eq_nil_or_concat' after with rfl | ⟨others, last, rfl⟩
            · have same := List.singleton_inj.mp (List.append_inj_right' split rfl)
              exact absurd (by rw [same]) different
            · rw [← List.cons_append, ← List.append_assoc] at split
              refine ⟨before, others, List.append_inj_left' split rfl, fun member => absent ?_⟩
              rw [List.map_append]
              exact List.mem_append_left _ member

/-- A key without an answer was never written. -/
theorem lookup_reverse_eq_none_iff :
    writes.reverse.lookup query = none ↔ query ∉ writes.map Prod.fst := by
  induction writes using List.reverseRecOn with
  | nil => simp only [List.reverse_nil, List.lookup_nil, List.map_nil, List.not_mem_nil,
      not_false_eq_true]
  | append_singleton writes write ih =>
      rw [List.reverse_concat, lookup_cons_eq_ite]
      by_cases same : query = write.1
      · simp only [same, ↓reduceIte, reduceCtorEq, List.map_append, List.map_cons, List.map_nil,
          List.mem_append, List.mem_singleton, or_true, not_true_eq_false]
      · simp only [same, ↓reduceIte, ih, List.map_append, List.map_cons, List.map_nil,
          List.mem_append, List.mem_singleton, or_false]

end LastWrite

theorem lookup_eq_none_iff (entries : List (K × V)) (query : K) :
    entries.lookup query = none ↔ query ∉ entries.map Prod.fst := by
  have read := lookup_reverse_eq_none_iff entries.reverse query
  rwa [List.reverse_reverse, List.map_reverse, List.mem_reverse] at read

/-- As many keys are looked up as the list has entries. -/
theorem ncard_lookup {entries : List (K × V)} (ascending : Ascending entries) :
    {query | entries.lookup query ≠ none}.ncard = entries.length := by
  have distinct : (entries.map Prod.fst).Nodup :=
    (List.pairwise_map.mpr ascending).imp fun below => below.ne
  have found : {query | entries.lookup query ≠ none} = ↑(entries.map Prod.fst).toFinset := by
    apply Set.ext
    intro query
    rw [Finset.mem_coe, List.mem_toFinset]
    exact (lookup_eq_none_iff entries query).not_left
  rw [found, Set.ncard_coe_finset, List.toFinset_card_of_nodup distinct, List.length_map]

section Writes

/-- The map left by a sequence of writes, the first write first. -/
def ofWrites (writes : List (K × V)) : List (K × V) :=
  writes.foldl (fun entries write => upsert write.1 write.2 entries) []

@[simp] theorem ofWrites_concat (writes : List (K × V)) (write : K × V) :
    ofWrites (writes ++ [write]) = upsert write.1 write.2 (ofWrites writes) := by
  simp only [ofWrites, List.foldl_append, List.foldl_cons, List.foldl_nil]

/-- What writes lead to ascends. -/
theorem ascending_ofWrites (writes : List (K × V)) : Ascending (ofWrites writes) := by
  induction writes using List.reverseRecOn with
  | nil => exact List.Pairwise.nil
  | append_singleton writes write ih => rw [ofWrites_concat]; exact ih.upsert

/-- Its keys are those written. -/
theorem mem_keys_ofWrites (writes : List (K × V)) (query : K) :
    query ∈ (ofWrites writes).map Prod.fst ↔ query ∈ writes.map Prod.fst := by
  induction writes using List.reverseRecOn with
  | nil => rfl
  | append_singleton writes write ih =>
      simp only [ofWrites_concat, mem_keys_upsert, ih, List.map_append, List.map_cons, List.map_nil,
        List.mem_append, List.mem_singleton]
      exact or_comm

/-- **The last write wins.** -/
theorem lookup_ofWrites (writes : List (K × V)) (query : K) :
    (ofWrites writes).lookup query = writes.reverse.lookup query := by
  induction writes using List.reverseRecOn with
  | nil => rfl
  | append_singleton writes write ih =>
      rw [ofWrites_concat, lookup_upsert, ih, List.reverse_append]
      exact (lookup_cons_eq_ite query write writes.reverse).symm

/-- There is one entry for each distinct key written. -/
theorem length_ofWrites (writes : List (K × V)) :
    (ofWrites writes).length = (writes.map Prod.fst).toFinset.card := by
  induction writes using List.reverseRecOn with
  | nil => rfl
  | append_singleton writes write ih =>
      rw [ofWrites_concat, length_upsert (ascending_ofWrites writes), ih]
      simp only [mem_keys_ofWrites, List.map_append, List.map_cons, List.map_nil,
        List.toFinset_append, List.toFinset_cons, List.toFinset_nil, insert_empty_eq,
        Finset.union_singleton]
      by_cases member : write.1 ∈ writes.map Prod.fst
      · rw [Finset.insert_eq_of_mem (List.mem_toFinset.mpr member)]
        simp only [member, ↓reduceIte, Nat.add_zero]
      · rw [Finset.card_insert_of_notMem fun inside => member (List.mem_toFinset.mp inside)]
        simp only [member, ↓reduceIte]

end Writes

end MiniDbms.Foundation
