import Mathlib.Data.List.Perm.Subperm
import Mathlib.Logic.Function.Basic

/-! # Workers with one task at a time

Workers take tasks one after the other, and each worker finishes its task before it
takes the next one. `started` and `done` say who began and who finished what, in the order
in which it happened. Then nothing is done twice or without having been started
(`MiniDbms.Foundation.Follows.subperm`), and when nobody is at a task, everything that was
started is done (`MiniDbms.Foundation.Follows.perm`).
-/

namespace MiniDbms.Foundation

variable {Index Task : Type} [DecidableEq Index]

/-- Every worker has done the tasks it started in their order, up to the current one. -/
def Follows (started done : List (Index × Task)) (current : Index → Option Task) : Prop :=
  ∀ index, started.filter (·.1 = index) =
    done.filter (·.1 = index) ++ (current index).toList.map (Prod.mk index)

/-- The tasks of one worker after one more. -/
theorem filter_concat (tasks : List (Index × Task)) (index other : Index) (task : Task) :
    (tasks ++ [(index, task)]).filter (·.1 = other) =
      tasks.filter (·.1 = other) ++ if index = other then [(index, task)] else [] := by
  rw [List.filter_append, List.filter_singleton]
  by_cases same : index = other
  · simp only [same, decide_true, cond_true, ↓reduceIte]
  · simp only [same, decide_false, cond_false, ↓reduceIte]

namespace Follows

variable {started done : List (Index × Task)} {current : Index → Option Task} {index : Index}
  {task : Task}

/-- A worker begins a task. -/
theorem start (follows : Follows started done current) (idle : current index = none)
    (task : Task) :
    Follows (started ++ [(index, task)]) done (Function.update current index (some task)) := by
  intro other
  rw [filter_concat, follows other]
  by_cases same : index = other
  · subst same
    rw [idle, Function.update_self, if_pos rfl, Option.toList_none, List.map_nil, List.append_nil]
    rfl
  · rw [Function.update_of_ne (Ne.symm same), if_neg same, List.append_nil]

/-- A worker finishes its task. -/
theorem finish (follows : Follows started done current) (busy : current index = some task) :
    Follows started (done ++ [(index, task)]) (Function.update current index none) := by
  intro other
  rw [filter_concat, follows other]
  by_cases same : index = other
  · subst same
    rw [busy, Function.update_self, if_pos rfl, Option.toList_none, List.map_nil, List.append_nil]
    rfl
  · rw [Function.update_of_ne (Ne.symm same), if_neg same, List.append_nil]

/-- What was started is done, or somebody is at it. -/
theorem done_or_busy (follows : Follows started done current) {entry : Index × Task}
    (member : entry ∈ started) : entry ∈ done ∨ current entry.1 = some entry.2 := by
  have mine : entry ∈ started.filter (·.1 = entry.1) :=
    List.mem_filter.mpr ⟨member, decide_eq_true rfl⟩
  rw [follows entry.1, List.mem_append] at mine
  rcases mine with finished | busy
  · exact .inl (List.mem_filter.mp finished).1
  · obtain ⟨task, now, same⟩ := List.mem_map.mp busy
    rw [Option.mem_toList] at now
    exact .inr (now.trans (congrArg (fun entry => some entry.2) same))

/-- Of two parts of every task, the one that ends first is done when the other is. -/
theorem subset_of_first {first second : List (Index × Task)} {atFirst : Index → Option Task}
    (firsts : Follows started first atFirst) (seconds : Follows started second current)
    (before : ∀ index task, atFirst index = some task → current index = some task) :
    second ⊆ first := by
  intro entry member
  have mine : entry ∈ second.filter (·.1 = entry.1) :=
    List.mem_filter.mpr ⟨member, decide_eq_true rfl⟩
  have same := (firsts entry.1).symm.trans (seconds entry.1)
  suffices inside : entry ∈ first.filter (·.1 = entry.1) from (List.mem_filter.mp inside).1
  cases busy : atFirst entry.1 with
  | none =>
      rw [busy, Option.toList_none, List.map_nil, List.append_nil] at same
      rw [same]
      exact List.mem_append_left _ mine
  | some task =>
      rw [busy, before _ _ busy] at same
      rw [List.append_cancel_right same]
      exact mine

variable [DecidableEq Task]

theorem count_filter (tasks : List (Index × Task)) (entry : Index × Task) :
    (tasks.filter (·.1 = entry.1)).count entry = tasks.count entry :=
  List.count_filter (by simp only [decide_true])

/-- **Nothing is done twice** or without having been started. -/
theorem subperm (follows : Follows started done current) : done.Subperm started := by
  rw [List.subperm_ext_iff]
  intro entry _
  rw [← count_filter done, ← count_filter started, follows entry.1, List.count_append]
  exact Nat.le_add_right _ _

/-- **When nobody is at a task,** everything that was started is done. -/
theorem perm (follows : Follows started done current) (idle : ∀ index, current index = none) :
    done.Perm started := by
  rw [List.perm_iff_count]
  intro entry
  rw [← count_filter done, ← count_filter started, follows entry.1, idle, Option.toList_none,
    List.map_nil, List.append_nil]

/-- What a worker is at has been started and is not done yet. -/
theorem busy_subperm (follows : Follows started done current) (busy : current index = some task) :
    (done ++ [(index, task)]).Subperm started :=
  (follows.finish busy).subperm

end Follows

end MiniDbms.Foundation
