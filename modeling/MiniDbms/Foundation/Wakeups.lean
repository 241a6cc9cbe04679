import MiniDbms.Foundation.Monitor

/-! # No lost wakeups

Suppose that a condition variable of a monitor is for operations that each take an item,
and that it is signalled whenever an item is added. Then, whenever the mutex is free and a
thread is waiting, there are no more items than threads on their way
(`MiniDbms.Foundation.Monitor.Step.covered`). When it is broadcast at the time the shared
state is closed, nobody waits afterwards (`MiniDbms.Foundation.Monitor.Step.closed`).
-/

namespace MiniDbms.Foundation

namespace Monitor

variable {Thread Op Cond Shared Result : Type} [DecidableEq Thread] [DecidableEq Cond]
  {monitor : Monitor Op Cond Shared Result} {assigned : Thread → Op → Prop}
  {config next : Config Thread Op Cond Shared Result}

/-- The operations of one kind each take one of the items and wait for one on the
condition variable, which is signalled when an item is added. -/
structure Supplies (monitor : Monitor Op Cond Shared Result) (on : Cond) (takes : Op → Bool)
    (items : Shared → Nat) : Prop where
  /-- Only such operations wait there. -/
  waits : ∀ op shared, monitor.turn op shared = .wait on → takes op = true
  /-- They wait only when there are no items. -/
  empty : ∀ op shared other, monitor.turn op shared = .wait other → takes op = true →
    items shared = 0
  leaves : ∀ op shared next notices result,
    monitor.turn op shared = .leave next notices result →
      notices on = .broadcast ∨ items next = 0 ∨
        items next + (if takes op then 1 else 0) ≤
          items shared + if notices on = .signal then 1 else 0

/-- Whether the thread that has the mutex is going to take an item. -/
def Config.taking (config : Config Thread Op Cond Shared Result) (takes : Op → Bool) : Nat :=
  match config.holder.map config.activity with
  | some (.inside op) => if takes op then 1 else 0
  | _ => 0

/-- There are not more items than threads on their way, and those are of the kind that
takes one. -/
structure Config.Covered (config : Config Thread Op Cond Shared Result) (on : Cond)
    (takes : Op → Bool) (items : Shared → Nat) : Prop where
  covers : (config.conds on).Covers (items config.shared - config.taking takes)
  kind : ∀ thread op, config.activity thread = .asleep op on → takes op = true

variable {on : Cond} {takes : Op → Bool} {items : Shared → Nat}

omit [DecidableEq Thread] [DecidableEq Cond] in
theorem Config.taking_of_free (free : config.holder = none) : config.taking takes = 0 := by
  simp only [taking, free, Option.map_none]

omit [DecidableEq Thread] [DecidableEq Cond] in
theorem Config.taking_of_inside {thread : Thread} {op : Op} (holds : config.holder = some thread)
    (inside : config.activity thread = .inside op) :
    config.taking takes = if takes op then 1 else 0 := by
  simp only [taking, holds, Option.map_some, inside]

omit [DecidableEq Cond] in
/-- What a thread that is not inside begins does not matter to the holder. -/
theorem Config.taking_enter {thread : Thread} {last : Option Result} {op : Op}
    (idle : config.activity thread = .outside last) :
    Config.taking { config with
      activity := Function.update config.activity thread (.locking op) } takes =
        config.taking takes := by
  rcases holder : config.holder with _ | holds
  · simp only [taking, holder, Option.map_none]
  · by_cases same : holds = thread
    · subst same
      simp only [taking, holder, Option.map_some, Function.update_self, idle]
    · simp only [taking, holder, Option.map_some, Function.update_of_ne same]

omit [DecidableEq Cond] in
/-- In the beginning nobody waits. -/
theorem Config.Consistent.covered_initial {activity : Thread → Activity Op Cond Result}
    {shared : Shared} (consistent : (Config.initial activity shared).Consistent assigned) :
    (Config.initial activity shared).Covered on takes items where
  covers := CondVar.covers_of_none rfl
  kind := fun thread op asleep => by
    have member := (consistent.asleep thread on).mpr ⟨op, asleep⟩
    exact absurd member (Finset.notMem_empty thread)

omit [DecidableEq Cond] in
/-- The kind of the threads asleep stays when one thread does something else. -/
theorem Config.Covered.kind_update (covered : config.Covered on takes items) {thread : Thread}
    {activity : Activity Op Cond Result}
    (kind : ∀ op, activity = .asleep op on → takes op = true) :
    ∀ other op, Function.update config.activity thread activity other = .asleep op on →
      takes op = true :=
  (Function.forall_update_iff config.activity fun _ activity => ∀ op, activity = .asleep op on →
    takes op = true).mpr ⟨kind, fun other _ => covered.kind other⟩

/-- **No lost wakeup.** Every step keeps the items covered. -/
theorem Step.covered (supplies : monitor.Supplies on takes items)
    (step : Step monitor assigned config next) (consistent : config.Consistent assigned)
    (covered : config.Covered on takes items) : next.Covered on takes items := by
  cases step with
  | @enter thread last op idle mine =>
      refine ⟨?_, covered.kind_update nofun⟩
      rw [Config.taking_enter idle]
      exact covered.covers
  | @lock thread op locking free =>
      refine ⟨?_, covered.kind_update nofun⟩
      have covers := covered.covers
      rw [Config.taking_of_free free] at covers
      exact covers.mono (Nat.sub_le_sub_left (Nat.zero_le _) _)
  | @wait thread op other inside waits =>
      have holds := (consistent.inside thread).mpr ⟨op, inside⟩
      refine ⟨?_, covered.kind_update ?_⟩
      · rw [Config.taking_of_free rfl]
        by_cases kind : takes op = true
        · change CondVar.Covers _ (items config.shared - 0)
          rw [supplies.empty op _ other waits kind]
          exact CondVar.covers_zero _
        · have elsewhere : on ≠ other := by
            rintro rfl
            exact kind (supplies.waits op _ waits)
          have covers := covered.covers
          rw [Config.taking_of_inside holds inside, if_neg kind] at covers
          change CondVar.Covers (Function.update config.conds other _ on) _
          rwa [Function.update_of_ne elsewhere]
      · intro op' same
        cases same
        exact supplies.waits op _ waits
  | @leave thread op shared notices result chosen inside leaves allowed =>
      have holds := (consistent.inside thread).mpr ⟨op, inside⟩
      refine ⟨?_, covered.kind_update nofun⟩
      have covers := covered.covers
      rw [Config.taking_of_inside holds inside] at covers
      rw [Config.taking_of_free rfl]
      refine covers.notify (consistent.separate on) (allowed on) ?_
      change _ ∨ items shared - 0 ≤ _
      rcases supplies.leaves op _ _ _ _ leaves with all | zero | fewer
      · exact .inl all
      · exact .inr (by omega)
      · exact .inr (by omega)
  | @wake thread op other asleep waits =>
      refine ⟨?_, covered.kind⟩
      change CondVar.Covers (Function.update config.conds other _ on) _
      by_cases here : on = other
      · subst here
        rw [Function.update_self]
        exact (covered.covers.wake (consistent.separate on) waits).mono (Nat.le_succ _)
      · rw [Function.update_of_ne here]
        exact covered.covers
  | @resume thread op other asleep free woken =>
      refine ⟨?_, covered.kind_update nofun⟩
      have covers := covered.covers
      rw [Config.taking_of_free free] at covers
      change CondVar.Covers (Function.update config.conds other _ on) _
      by_cases here : on = other
      · subst here
        have kind := covered.kind thread op asleep
        rw [Function.update_self, Config.taking_of_inside rfl (Function.update_self ..),
          if_pos kind]
        exact covers.resume
      · rw [Function.update_of_ne here]
        exact covers.mono (Nat.sub_le_sub_left (Nat.zero_le _) _)

/-- Once the shared state is closed nobody waits on the condition variable any more, and
it is closed with a broadcast. -/
structure Closes (monitor : Monitor Op Cond Shared Result) (on : Cond)
    (closed : Shared → Prop) : Prop where
  waits : ∀ op shared, monitor.turn op shared = .wait on → ¬ closed shared
  leaves : ∀ op shared next notices result,
    monitor.turn op shared = .leave next notices result → closed next →
      closed shared ∨ notices on = .broadcast

/-- In a closed state nobody waits on the condition variable, after every step. -/
theorem Step.closed {closed : Shared → Prop} (closes : monitor.Closes on closed)
    (step : Step monitor assigned config next)
    (empty : closed config.shared → (config.conds on).waiting = ∅) :
    closed next.shared → (next.conds on).waiting = ∅ := by
  intro isClosed
  cases step with
  | enter | lock => exact empty isClosed
  | @wait thread op other inside waits =>
      change (Function.update config.conds other _ on).waiting = ∅
      rw [Function.update_of_ne]
      · exact empty isClosed
      · rintro rfl
        exact closes.waits op _ waits isClosed
  | @leave thread op shared notices result chosen inside leaves allowed =>
      rcases closes.leaves op _ _ _ _ leaves isClosed with before | all
      · have none := CondVar.waiting_notify_subset (config.conds on) (notices on) (chosen on)
        rw [empty before] at none
        exact Finset.subset_empty.mp none
      · change ((config.conds on).notify (notices on) (chosen on)).waiting = ∅
        rw [all]
        rfl
  | @wake thread op other asleep waits =>
      change (Function.update config.conds other _ on).waiting = ∅
      rw [Function.update_of_ne]
      · exact empty isClosed
      · rintro rfl
        rw [empty isClosed] at waits
        cases waits
  | @resume thread op other asleep free woken =>
      change (Function.update config.conds other _ on).waiting = ∅
      by_cases here : on = other
      · subst here
        rw [Function.update_self]
        exact empty isClosed
      · rw [Function.update_of_ne here]
        exact empty isClosed

end Monitor

end MiniDbms.Foundation
