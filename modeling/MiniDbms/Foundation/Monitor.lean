import Mathlib.Logic.Function.Basic
import MiniDbms.Foundation.CondVar

/-! # Monitors

Any number of threads run operations on shared state under one mutex. When an
operation has the mutex it takes a turn: it waits on a condition variable, which
releases the mutex until the thread has been woken and takes another turn, or it
changes the shared state, notifies waiting threads, releases the mutex and returns.
Threads may be woken at any time without being notified, and others may get in before
a woken thread has the mutex again.

What every turn preserves is an invariant of the shared state and of the history of
the results (`MiniDbms.Foundation.Monitor.Step.history`).
-/

namespace MiniDbms.Foundation

/-- An operation's turn: it waits, or changes the shared state and returns. -/
inductive Turn (Cond Shared Result : Type) where
  | wait (on : Cond)
  | leave (shared : Shared) (notices : Cond → Notice) (result : Result)

/-- What operations do when they have the mutex. -/
structure Monitor (Op Cond Shared Result : Type) where
  turn : Op → Shared → Turn Cond Shared Result

namespace Monitor

inductive Activity (Op Cond Result : Type) where
  /-- Outside the monitor, with the result of the last operation. -/
  | outside (last : Option Result)
  | locking (op : Op)
  | inside (op : Op)
  | asleep (op : Op) (on : Cond)
  deriving DecidableEq

/-- The operation that the thread is in. -/
def Activity.op {Op Cond Result : Type} : Activity Op Cond Result → Option Op
  | .outside _ => none
  | .locking op => some op
  | .inside op => some op
  | .asleep op _ => some op

/-- An operation that returned. -/
structure Entry (Thread Result : Type) where
  thread : Thread
  result : Result
  deriving DecidableEq

/-- All threads, the mutex, the condition variables and the shared state, with a history
of the operations in the order of their last turns. -/
structure Config (Thread Op Cond Shared Result : Type) where
  activity : Thread → Activity Op Cond Result
  holder : Option Thread
  conds : Cond → CondVar Thread
  shared : Shared
  log : List (Entry Thread Result)

inductive Move (Thread Cond : Type) where
  | lock (thread : Thread)
  /-- The holder's turn, and the threads that its signals wake. -/
  | turn (thread : Thread) (chosen : Cond → Option Thread)
  /-- A thread wakes up. -/
  | wake (thread : Thread)
  /-- A woken thread has the mutex again. -/
  | resume (thread : Thread)

variable {Thread Op Cond Shared Result : Type} [DecidableEq Thread] [DecidableEq Cond]

namespace Config

/-- A thread begins an operation. -/
def enter (config : Config Thread Op Cond Shared Result) (thread : Thread) (op : Op) :
    Option (Config Thread Op Cond Shared Result) :=
  match config.activity thread with
  | .outside _ =>
      some { config with activity := Function.update config.activity thread (.locking op) }
  | _ => none

/-- Nobody has done anything yet. -/
def initial (activity : Thread → Activity Op Cond Result) (shared : Shared) :
    Config Thread Op Cond Shared Result where
  activity := activity
  holder := none
  conds := fun _ => .quiet
  shared := shared
  log := []

/-- One step of one thread, if it is possible. -/
def perform [Fintype Cond] (monitor : Monitor Op Cond Shared Result)
    (config : Config Thread Op Cond Shared Result) :
    Move Thread Cond → Option (Config Thread Op Cond Shared Result)
  | .lock thread =>
      match config.activity thread with
      | .locking op =>
          if config.holder = none then
            some
              { config with
                activity := Function.update config.activity thread (.inside op)
                holder := some thread }
          else none
      | _ => none
  | .turn thread chosen =>
      match config.activity thread with
      | .inside op =>
          match monitor.turn op config.shared with
          | .wait on =>
              some
                { config with
                  activity := Function.update config.activity thread (.asleep op on)
                  holder := none
                  conds := Function.update config.conds on ((config.conds on).wait thread) }
          | .leave shared notices result =>
              if ∀ on, (config.conds on).Allows (notices on) (chosen on) then
                some
                  { activity := Function.update config.activity thread (.outside (some result))
                    holder := none
                    conds := fun on => (config.conds on).notify (notices on) (chosen on)
                    shared := shared
                    log := config.log ++ [{ thread := thread, result := result }] }
              else none
      | _ => none
  | .wake thread =>
      match config.activity thread with
      | .asleep _ on =>
          if thread ∈ (config.conds on).waiting then
            some
              { config with
                conds := Function.update config.conds on ((config.conds on).wake thread) }
          else none
      | _ => none
  | .resume thread =>
      match config.activity thread with
      | .asleep op on =>
          if config.holder = none ∧ thread ∈ (config.conds on).woken then
            some
              { config with
                activity := Function.update config.activity thread (.inside op)
                holder := some thread
                conds := Function.update config.conds on ((config.conds on).resume thread) }
          else none
      | _ => none

end Config

/-- What can happen in a monitor whose threads run operations assigned to them. -/
inductive Step (monitor : Monitor Op Cond Shared Result) (assigned : Thread → Op → Prop) :
    Config Thread Op Cond Shared Result → Config Thread Op Cond Shared Result → Prop
  | enter {config thread last op} (idle : config.activity thread = .outside last)
      (mine : assigned thread op) :
      Step monitor assigned config
        { config with activity := Function.update config.activity thread (.locking op) }
  | lock {config thread op} (locking : config.activity thread = .locking op)
      (free : config.holder = none) :
      Step monitor assigned config
        { config with
          activity := Function.update config.activity thread (.inside op)
          holder := some thread }
  | wait {config thread op on} (inside : config.activity thread = .inside op)
      (waits : monitor.turn op config.shared = .wait on) :
      Step monitor assigned config
        { config with
          activity := Function.update config.activity thread (.asleep op on)
          holder := none
          conds := Function.update config.conds on ((config.conds on).wait thread) }
  | leave {config thread op shared notices result} {chosen : Cond → Option Thread}
      (inside : config.activity thread = .inside op)
      (leaves : monitor.turn op config.shared = .leave shared notices result)
      (allowed : ∀ on, (config.conds on).Allows (notices on) (chosen on)) :
      Step monitor assigned config
        { activity := Function.update config.activity thread (.outside (some result))
          holder := none
          conds := fun on => (config.conds on).notify (notices on) (chosen on)
          shared := shared
          log := config.log ++ [{ thread := thread, result := result }] }
  | wake {config thread op on} (asleep : config.activity thread = .asleep op on)
      (waits : thread ∈ (config.conds on).waiting) :
      Step monitor assigned config
        { config with conds := Function.update config.conds on ((config.conds on).wake thread) }
  | resume {config thread op on} (asleep : config.activity thread = .asleep op on)
      (free : config.holder = none) (woken : thread ∈ (config.conds on).woken) :
      Step monitor assigned config
        { config with
          activity := Function.update config.activity thread (.inside op)
          holder := some thread
          conds := Function.update config.conds on ((config.conds on).resume thread) }

variable {monitor : Monitor Op Cond Shared Result} {assigned : Thread → Op → Prop}
  {config next : Config Thread Op Cond Shared Result}

omit [DecidableEq Cond] in
/-- A thread that enters was outside. -/
theorem Config.eq_of_enter {thread : Thread} {op : Op}
    (entered : config.enter thread op = some next) :
    (∃ last, config.activity thread = .outside last) ∧
      next =
        { config with activity := Function.update config.activity thread (.locking op) } := by
  unfold Config.enter at entered
  split at entered
  · next last idle =>
      cases entered
      exact ⟨⟨last, idle⟩, rfl⟩
  · cases entered

theorem step_of_enter {thread : Thread} {op : Op} (entered : config.enter thread op = some next)
    (mine : assigned thread op) : Step monitor assigned config next := by
  obtain ⟨⟨last, idle⟩, rfl⟩ := Config.eq_of_enter entered
  exact .enter idle mine

theorem step_of_perform [Fintype Cond] {move : Move Thread Cond}
    (performed : config.perform monitor move = some next) : Step monitor assigned config next := by
  cases move with
  | lock thread =>
      simp only [Config.perform] at performed
      split at performed
      · next op locking =>
          split at performed
          · next free =>
              cases performed
              exact .lock locking free
          · cases performed
      · cases performed
  | turn thread chosen =>
      simp only [Config.perform] at performed
      split at performed
      · next op inside =>
          split at performed
          · next on waits =>
              cases performed
              exact .wait inside waits
          · next shared notices result leaves =>
              split at performed
              · next allowed =>
                  cases performed
                  exact .leave inside leaves allowed
              · cases performed
      · cases performed
  | wake thread =>
      simp only [Config.perform] at performed
      split at performed
      · next op on asleep =>
          split at performed
          · next waits =>
              cases performed
              exact .wake asleep waits
          · cases performed
      · cases performed
  | resume thread =>
      simp only [Config.perform] at performed
      split at performed
      · next op on asleep =>
          split at performed
          · next possible =>
              cases performed
              exact .resume asleep possible.1 possible.2
          · cases performed
      · cases performed

/-- Unless a thread begins an operation, those outside stay there. -/
theorem Step.stays_outside (step : Step monitor (fun _ _ => False) config next) {thread : Thread}
    {last : Option Result} (idle : config.activity thread = .outside last) :
    next.activity thread = .outside last := by
  have update : ∀ {other activity}, (∀ last, config.activity other ≠ .outside last) →
      Function.update config.activity other activity thread = .outside last := by
    intro other activity busy
    rw [Function.update_of_ne, idle]
    rintro rfl
    exact busy last idle
  cases step with
  | enter idle mine => exact mine.elim
  | lock locking free => exact update (by rw [locking]; exact nofun)
  | wait inside waits => exact update (by rw [inside]; exact nofun)
  | leave inside leaves allowed => exact update (by rw [inside]; exact nofun)
  | wake asleep waits => exact idle
  | resume asleep free woken => exact update (by rw [asleep]; exact nofun)

/-- A thread that returned with this result had its last turn. -/
theorem Step.leave_of_returned (step : Step monitor assigned config next) {thread : Thread}
    {result : Result} (before : config.activity thread ≠ .outside (some result))
    (after : next.activity thread = .outside (some result)) :
    ∃ op shared notices, ∃ chosen : Cond → Option Thread,
      config.activity thread = .inside op ∧
        monitor.turn op config.shared = .leave shared notices result ∧ next.shared = shared ∧
          (∀ on, next.conds on = (config.conds on).notify (notices on) (chosen on)) ∧
            next.log = config.log ++ [{ thread := thread, result := result }] := by
  have unmoved : ∀ {other activity}, activity ≠ .outside (some result) →
      Function.update config.activity other activity thread ≠ .outside (some result) := by
    intro other activity different
    by_cases same : thread = other
    · subst same
      rwa [Function.update_self]
    · rwa [Function.update_of_ne same]
  cases step with
  | enter idle mine => exact absurd after (unmoved nofun)
  | lock locking free => exact absurd after (unmoved nofun)
  | wait inside waits => exact absurd after (unmoved nofun)
  | wake asleep waits => exact absurd after before
  | resume asleep free woken => exact absurd after (unmoved nofun)
  | @leave other op shared notices given chosen inside leaves allowed =>
      by_cases same : thread = other
      · subst same
        change Function.update config.activity thread _ thread = _ at after
        rw [Function.update_self] at after
        cases after
        exact ⟨op, shared, notices, chosen, inside, leaves, rfl, fun _ => rfl, rfl⟩
      · change Function.update config.activity other _ thread = _ at after
        rw [Function.update_of_ne same] at after
        exact absurd after before

/-- The mutex is held by the one thread inside, the condition variables know the threads
asleep, and the history knows the results. -/
structure Config.Consistent (config : Config Thread Op Cond Shared Result)
    (assigned : Thread → Op → Prop) : Prop where
  mine : ∀ thread op, (config.activity thread).op = some op → assigned thread op
  returned : ∀ thread result, config.activity thread = .outside (some result) →
    { thread := thread, result := result } ∈ config.log
  inside : ∀ thread, config.holder = some thread ↔ ∃ op, config.activity thread = .inside op
  asleep : ∀ thread on, thread ∈ (config.conds on).sleepers ↔
    ∃ op, config.activity thread = .asleep op on
  separate : ∀ on, (config.conds on).Separate

namespace Config.Consistent

omit [DecidableEq Cond] in
/-- While the mutex is free, nobody is inside. -/
theorem not_inside (consistent : config.Consistent assigned) (free : config.holder = none)
    (thread : Thread) (op : Op) : config.activity thread ≠ .inside op := by
  intro inside
  cases free.symm.trans ((consistent.inside thread).mpr ⟨op, inside⟩)

omit [DecidableEq Cond] in
/-- Nobody else is inside. -/
theorem not_inside_of_ne (consistent : config.Consistent assigned) {thread other : Thread} {op : Op}
    (inside : config.activity thread = .inside op) (different : other ≠ thread) (op' : Op) :
    config.activity other ≠ .inside op' := by
  intro inside'
  have holds := (consistent.inside thread).mpr ⟨op, inside⟩
  have holds' := (consistent.inside other).mpr ⟨op', inside'⟩
  exact different (Option.some.inj (holds'.symm.trans holds))

omit [DecidableEq Cond] in
/-- A thread takes the free mutex. -/
theorem inside_take (consistent : config.Consistent assigned) (free : config.holder = none)
    (thread : Thread) (op : Op) :
    ∀ other, some thread = some other ↔
      ∃ op', Function.update config.activity thread (.inside op) other = .inside op' := by
  refine (Function.forall_update_iff config.activity fun other activity =>
    some thread = some other ↔ ∃ op, activity = .inside op).mpr
      ⟨iff_of_true rfl ⟨op, rfl⟩, fun other different => ?_⟩
  refine iff_of_false (fun same => different (Option.some.inj same).symm) ?_
  rintro ⟨op', inside⟩
  exact consistent.not_inside free other op' inside

omit [DecidableEq Cond] in
/-- The thread inside gives the mutex back. -/
theorem inside_release (consistent : config.Consistent assigned) {thread : Thread} {op : Op}
    (inside : config.activity thread = .inside op) {now : Activity Op Cond Result}
    (left : ∀ op', now ≠ .inside op') :
    ∀ other, none = some other ↔
      ∃ op', Function.update config.activity thread now other = .inside op' := by
  refine (Function.forall_update_iff config.activity fun other activity =>
    none = some other ↔ ∃ op, activity = .inside op).mpr
      ⟨iff_of_false (Option.some_ne_none thread).symm (not_exists.mpr left), ?_⟩
  intro other different
  exact iff_of_false (Option.some_ne_none other).symm
    (not_exists.mpr (consistent.not_inside_of_ne inside different))

omit [DecidableEq Cond] in
/-- A thread that is awake is not among the sleepers. -/
theorem not_sleeper (consistent : config.Consistent assigned) (thread : Thread)
    (awake : ∀ op on, config.activity thread ≠ .asleep op on) (on : Cond) :
    thread ∉ (config.conds on).sleepers := by
  intro member
  obtain ⟨op, asleep⟩ := (consistent.asleep thread on).mp member
  exact awake op on asleep

end Config.Consistent

omit [DecidableEq Cond] in
/-- In the beginning all threads are outside or want the mutex. -/
theorem Config.consistent_initial {activity : Thread → Activity Op Cond Result} (shared : Shared)
    (fresh : ∀ thread, activity thread = .outside none ∨
      ∃ op, activity thread = .locking op ∧ assigned thread op) :
    (Config.initial activity shared).Consistent assigned := by
  have outsideNone : ∀ thread result, activity thread ≠ .outside (some result) := by
    intro thread result
    rcases fresh thread with idle | ⟨op, locking, _⟩ <;> simp only [*, ne_eq, reduceCtorEq,
      Activity.outside.injEq, not_false_eq_true]
  have notInside : ∀ thread op, activity thread ≠ .inside op := by
    intro thread op
    rcases fresh thread with idle | ⟨op, locking, _⟩ <;> simp only [*, ne_eq, reduceCtorEq,
      not_false_eq_true]
  have notAsleep : ∀ thread op on, activity thread ≠ .asleep op on := by
    intro thread op on
    rcases fresh thread with idle | ⟨op, locking, _⟩ <;> simp only [*, ne_eq, reduceCtorEq,
      not_false_eq_true]
  refine ⟨fun thread op same => ?_, fun thread result same => absurd same (outsideNone _ _),
    fun thread => iff_of_false nofun (not_exists.mpr (notInside thread)), fun thread on =>
      iff_of_false (Finset.notMem_empty thread) (not_exists.mpr fun op => notAsleep thread op on),
    fun _ => CondVar.separate_quiet⟩
  change (activity thread).op = some op at same
  rcases fresh thread with idle | ⟨first, locking, mine⟩
  · rw [idle] at same
    cases same
  · rw [locking] at same
    cases same
    exact mine

/-- The mutex is with the thread inside, after every step. -/
theorem Step.inside (step : Step monitor assigned config next)
    (consistent : config.Consistent assigned) :
    ∀ thread, next.holder = some thread ↔ ∃ op, next.activity thread = .inside op := by
  cases step with
  | @enter thread last op idle mine =>
      refine (Function.forall_update_iff config.activity fun other activity =>
        config.holder = some other ↔ ∃ op, activity = .inside op).mpr
          ⟨?_, fun other _ => consistent.inside other⟩
      simp only [consistent.inside, idle, reduceCtorEq, exists_false]
  | @lock thread op locking free => exact consistent.inside_take free thread op
  | @wait thread op on inside waits =>
      apply consistent.inside_release inside
      intro op' impossible
      cases impossible
  | @leave thread op shared notices result chosen inside leaves allowed =>
      apply consistent.inside_release inside
      intro op' impossible
      cases impossible
  | wake asleep waits => exact consistent.inside
  | @resume thread op on asleep free woken => exact consistent.inside_take free thread op

/-- After every step, the condition variables know the threads asleep. -/
theorem Step.asleep (step : Step monitor assigned config next)
    (consistent : config.Consistent assigned) :
    ∀ thread on, thread ∈ (next.conds on).sleepers ↔
      ∃ op, next.activity thread = .asleep op on := by
  cases step with
  | @enter thread last op idle mine =>
      refine (Function.forall_update_iff config.activity fun other activity => ∀ on,
        other ∈ (config.conds on).sleepers ↔ ∃ op, activity = .asleep op on).mpr
          ⟨fun on => ?_, fun other _ => consistent.asleep other⟩
      simp only [consistent.asleep, idle, reduceCtorEq, exists_false]
  | @lock thread op locking free =>
      refine (Function.forall_update_iff config.activity fun other activity => ∀ on,
        other ∈ (config.conds on).sleepers ↔ ∃ op, activity = .asleep op on).mpr
          ⟨fun on => ?_, fun other _ => consistent.asleep other⟩
      simp only [consistent.asleep, locking, reduceCtorEq, exists_false]
  | @wait thread op on inside waits =>
      have sleepers : ∀ other on', other ∈ (Function.update config.conds on
          ((config.conds on).wait thread) on').sleepers ↔
            (other = thread ∧ on' = on) ∨ other ∈ (config.conds on').sleepers := by
        intro other
        refine (Function.forall_update_iff config.conds fun on' cond => other ∈ cond.sleepers ↔
          (other = thread ∧ on' = on) ∨ other ∈ (config.conds on').sleepers).mpr
            ⟨?_, fun on' different => ?_⟩
        · simp only [CondVar.sleepers_wait, Finset.mem_insert, and_true]
        · simp only [different, and_false, false_or]
      refine (Function.forall_update_iff config.activity fun other activity => ∀ on', other ∈
        (Function.update config.conds on ((config.conds on).wait thread) on').sleepers ↔
          ∃ op, activity = .asleep op on').mpr ⟨fun on' => ?_, fun other different on' => ?_⟩
      · simp only [sleepers, true_and, consistent.asleep, inside, reduceCtorEq, exists_false,
          or_false, Activity.asleep.injEq, exists_eq_left', eq_comm]
      · simp only [sleepers, different, false_and, false_or, consistent.asleep]
  | @leave thread op shared notices result chosen inside leaves allowed =>
      refine (Function.forall_update_iff config.activity fun other activity => ∀ on, other ∈
        ((config.conds on).notify (notices on) (chosen on)).sleepers ↔
          ∃ op, activity = .asleep op on).mpr ⟨fun on => ?_, fun other _ on => ?_⟩
      · simp only [CondVar.sleepers_notify (allowed on), consistent.asleep, inside, reduceCtorEq,
          exists_false]
      · simp only [CondVar.sleepers_notify (allowed on), consistent.asleep]
  | @wake thread op on asleep waits =>
      refine fun other => (Function.forall_update_iff config.conds fun on' cond =>
        other ∈ cond.sleepers ↔ ∃ op, config.activity other = .asleep op on').mpr
          ⟨?_, fun on' _ => consistent.asleep other on'⟩
      rw [CondVar.sleepers_wake waits]
      exact consistent.asleep other on
  | @resume thread op on asleep free woken =>
      have notWaiting : thread ∉ (config.conds on).waiting := fun member =>
        Finset.disjoint_left.mp (consistent.separate on) member woken
      have sleepers : ∀ other on', other ∈ (Function.update config.conds on
          ((config.conds on).resume thread) on').sleepers ↔
            ¬(other = thread ∧ on' = on) ∧ other ∈ (config.conds on').sleepers := by
        intro other
        refine (Function.forall_update_iff config.conds fun on' cond => other ∈ cond.sleepers ↔
          ¬(other = thread ∧ on' = on) ∧ other ∈ (config.conds on').sleepers).mpr
            ⟨?_, fun on' different => ?_⟩
        · simp only [CondVar.sleepers_resume notWaiting, Finset.mem_erase, and_true, ne_eq]
        · simp only [different, and_false, not_false_eq_true, true_and]
      refine (Function.forall_update_iff config.activity fun other activity => ∀ on', other ∈
        (Function.update config.conds on ((config.conds on).resume thread) on').sleepers ↔
          ∃ op, activity = .asleep op on').mpr ⟨fun on' => ?_, fun other different on' => ?_⟩
      · simp only [sleepers, true_and, consistent.asleep, asleep, Activity.asleep.injEq,
          exists_eq_left', reduceCtorEq, exists_false, iff_false, not_and, eq_comm, imp_self]
      · simp only [sleepers, different, false_and, not_false_eq_true, true_and, consistent.asleep]

/-- A step keeps the waiting and the woken threads apart. -/
theorem Step.separate (step : Step monitor assigned config next)
    (consistent : config.Consistent assigned) :
    ∀ on, (next.conds on).Separate := by
  cases step with
  | enter op idle => exact consistent.separate
  | lock locking free => exact consistent.separate
  | @wait thread op on inside waits =>
      have awake := consistent.not_sleeper thread (fun op on => by rw [inside]; exact nofun) on
      exact (Function.forall_update_iff config.conds fun _ cond => cond.Separate).mpr
        ⟨(consistent.separate on).wait awake, fun on' _ => consistent.separate on'⟩
  | leave inside leaves allowed => exact fun on => (consistent.separate on).notify _ _
  | @wake thread op on asleep waits =>
      exact (Function.forall_update_iff config.conds fun _ cond => cond.Separate).mpr
        ⟨(consistent.separate on).wake, fun on' _ => consistent.separate on'⟩
  | @resume thread op on asleep free woken =>
      exact (Function.forall_update_iff config.conds fun _ cond => cond.Separate).mpr
        ⟨(consistent.separate on).resume, fun on' _ => consistent.separate on'⟩

/-- A step leaves every thread with an operation of its own. -/
theorem Step.mine (step : Step monitor assigned config next)
    (consistent : config.Consistent assigned) :
    ∀ thread op, (next.activity thread).op = some op → assigned thread op := by
  have update : ∀ {thread activity}, (∀ op, activity.op = some op → assigned thread op) →
      ∀ other op, (Function.update config.activity thread activity other).op = some op →
        assigned other op := fun {thread activity} here =>
    (Function.forall_update_iff config.activity fun other activity => ∀ op, activity.op = some op →
      assigned other op).mpr ⟨here, fun other _ => consistent.mine other⟩
  cases step with
  | enter idle mine => exact update fun op same => Option.some.inj same ▸ mine
  | lock locking free => exact update fun op same => consistent.mine _ op (locking ▸ same)
  | wait inside waits => exact update fun op same => consistent.mine _ op (inside ▸ same)
  | leave inside leaves allowed => exact update nofun
  | wake asleep waits => exact consistent.mine
  | resume asleep free woken => exact update fun op same => consistent.mine _ op (asleep ▸ same)

/-- A result that a step returns is on record. -/
theorem Step.returned (step : Step monitor assigned config next)
    (consistent : config.Consistent assigned) :
    ∀ thread result, next.activity thread = .outside (some result) →
      { thread := thread, result := result } ∈ next.log := by
  have update : ∀ {thread activity} {log : List (Entry Thread Result)},
      (∀ entry ∈ config.log, entry ∈ log) →
      (∀ result, activity = .outside (some result) →
        { thread := thread, result := result } ∈ log) →
      ∀ other result, Function.update config.activity thread activity other =
        .outside (some result) → { thread := other, result := result } ∈ log :=
    fun {thread activity log} kept here =>
      (Function.forall_update_iff config.activity fun other activity => ∀ result,
        activity = .outside (some result) → { thread := other, result := result } ∈ log).mpr
          ⟨here, fun other _ result same => kept _ (consistent.returned other result same)⟩
  cases step with
  | enter idle mine => exact update (fun _ => id) nofun
  | lock locking free => exact update (fun _ => id) nofun
  | wait inside waits => exact update (fun _ => id) nofun
  | leave inside leaves allowed =>
      refine update (fun _ => List.mem_append_left _) fun result same => ?_
      cases same
      exact List.mem_append_right _ (List.mem_singleton_self _)
  | wake asleep waits => exact consistent.returned
  | resume asleep free woken => exact update (fun _ => id) nofun

/-- Every step keeps the threads, the mutex and the condition variables consistent. -/
theorem Step.consistent (step : Step monitor assigned config next)
    (consistent : config.Consistent assigned) :
    next.Consistent assigned where
  mine := step.mine consistent
  returned := step.returned consistent
  inside := step.inside consistent
  asleep := step.asleep consistent
  separate := step.separate consistent

/-- **An invariant of the turns** is one of the shared state and the history. -/
theorem Step.history (invariant : Shared → List (Entry Thread Result) → Prop)
    (turns : ∀ thread op shared log next notices result, invariant shared log →
      assigned thread op → monitor.turn op shared = .leave next notices result →
        invariant next (log ++ [{ thread := thread, result := result }]))
    (step : Step monitor assigned config next) (consistent : config.Consistent assigned)
    (holds : invariant config.shared config.log) : invariant next.shared next.log := by
  cases step with
  | enter | lock | wait | wake | resume => exact holds
  | @leave thread op shared notices result chosen inside leaves allowed =>
      exact turns _ _ _ _ _ _ _ holds (consistent.mine thread op (inside ▸ rfl)) leaves

end Monitor

end MiniDbms.Foundation
