import MiniDbms.Server.QueueOrder

/-! # Wakeups in the thread pool

The workers take the queued descriptors, the callers take the free slots. Whenever the
mutex is free and a thread waits on a condition variable, there are no more descriptors, or
slots, than threads woken from it that do not have the mutex yet. When the pool is
stopping nobody waits. So the threads that could go on never all sleep
(`MiniDbms.Server.no_lost_wakeup`).
-/

namespace MiniDbms.Server

open Foundation

variable {threadCount : Nat} {Caller Fd : Type}

/-- A round of `worker_loop` takes a descriptor. -/
def PoolOp.takesFd : PoolOp Fd → Bool
  | .work => true
  | _ => false

/-- A call of `thread_pool_submit` takes a slot. -/
def PoolOp.takesSlot : PoolOp Fd → Bool
  | .submit _ => true
  | _ => false

/-- The slots that a call may take; there are none any more when the pool is stopping. -/
def ThreadPool.slots (pool : ThreadPool Fd) : Nat :=
  if pool.stopping then 0 else pool.capacity - pool.count

/-- The turns that wait. -/
theorem wait_of_turn {op : PoolOp Fd} {pool : ThreadPool Fd} {on : PoolCond}
    (waits : (poolMonitor Fd).turn op pool = .wait on) :
    pool.stopping = false ∧
      ((op = .work ∧ on = .notEmpty ∧ pool.count = 0) ∨
        (op.takesSlot = true ∧ on = .notFull ∧ pool.count = pool.capacity)) := by
  cases op with
  | work =>
      obtain ⟨running, empty, rfl⟩ := ThreadPool.wait_of_workerLoop waits
      exact ⟨running, .inl ⟨rfl, rfl, empty⟩⟩
  | submit clientFd =>
      obtain ⟨running, full, rfl⟩ := ThreadPool.wait_of_threadPoolSubmit waits
      exact ⟨running, .inr ⟨rfl, rfl, full⟩⟩
  | shutdown => cases waits

/-- `not_empty` is for the workers, and is signalled for every descriptor. -/
theorem supplies_notEmpty :
    (poolMonitor Fd).Supplies .notEmpty PoolOp.takesFd ThreadPool.count where
  waits := by
    intro op pool waits
    obtain ⟨_, ⟨rfl, _⟩ | ⟨_, impossible, _⟩⟩ := wait_of_turn waits
    · rfl
    · cases impossible
  empty := by
    intro op pool on waits takes
    obtain ⟨_, ⟨_, _, empty⟩ | ⟨isSubmit, _⟩⟩ := wait_of_turn waits
    · exact empty
    · cases op <;> simp [PoolOp.takesFd, PoolOp.takesSlot] at takes isSubmit
  leaves := by
    intro op pool next notices result leaves
    cases op with
    | work =>
        rcases ThreadPool.leave_of_workerLoop leaves with
          ⟨_, empty, rfl, _⟩ | ⟨occupied, rfl, rfl, _⟩
        · exact .inr (.inl empty)
        · refine .inr (.inr ?_)
          change pool.count - 1 + 1 ≤ pool.count + 0
          omega
    | submit clientFd =>
        rcases ThreadPool.leave_of_threadPoolSubmit leaves with
          ⟨_, rfl, rfl, _⟩ | ⟨_, _, rfl, rfl, _⟩
        · exact .inr (.inr (Nat.le_refl _))
        · exact .inr (.inr (Nat.le_refl _))
    | shutdown =>
        obtain ⟨_, rfl, _⟩ := ThreadPool.leave_of_threadPoolShutdown leaves
        exact .inl rfl

/-- `not_full` is for the callers, and is signalled for every slot. -/
theorem supplies_notFull :
    (poolMonitor Fd).Supplies .notFull PoolOp.takesSlot ThreadPool.slots where
  waits := by
    intro op pool waits
    obtain ⟨_, ⟨_, impossible, _⟩ | ⟨isSubmit, _⟩⟩ := wait_of_turn waits
    · cases impossible
    · exact isSubmit
  empty := by
    intro op pool on waits takes
    obtain ⟨_, ⟨rfl, _⟩ | ⟨_, _, full⟩⟩ := wait_of_turn waits
    · cases takes
    · rw [ThreadPool.slots, full, Nat.sub_self, ite_self]
  leaves := by
    intro op pool next notices result leaves
    cases op with
    | work =>
        rcases ThreadPool.leave_of_workerLoop leaves with
          ⟨_, _, rfl, rfl, _⟩ | ⟨occupied, rfl, rfl, _⟩
        · exact .inr (.inr (Nat.le_refl _))
        · refine .inr (.inr ?_)
          change (if pool.stopping then 0 else pool.capacity - (pool.count - 1)) + 0 ≤
            (if pool.stopping then 0 else pool.capacity - pool.count) + 1
          split <;> omega
    | submit clientFd =>
        rcases ThreadPool.leave_of_threadPoolSubmit leaves with
          ⟨stopping, rfl, _⟩ | ⟨running, room, rfl, rfl, _⟩
        · exact .inr (.inl (if_pos stopping))
        · have slots : ∀ count, ThreadPool.slots { pool.enqueue clientFd with count := count } =
              pool.capacity - count := fun count => if_neg (by simp [ThreadPool.enqueue, running])
          have before : pool.slots = pool.capacity - pool.count := if_neg (by simp [running])
          have after : (pool.enqueue clientFd).slots = pool.capacity - (pool.count + 1) := slots _
          rw [before, after]
          change _ ∨ _ ∨ pool.capacity - (pool.count + 1) + 1 ≤ pool.capacity - pool.count + 0
          omega
    | shutdown =>
        obtain ⟨_, rfl, _⟩ := ThreadPool.leave_of_threadPoolShutdown leaves
        exact .inl rfl

/-- The pool is stopped with a broadcast on both condition variables. -/
theorem closes_stopping (on : PoolCond) :
    (poolMonitor Fd).Closes on fun pool => pool.stopping = true where
  waits := by
    intro op pool waits stopping
    rw [(wait_of_turn waits).1] at stopping
    cases stopping
  leaves := by
    intro op pool next notices result leaves stopping
    cases op with
    | work =>
        rcases ThreadPool.leave_of_workerLoop leaves with ⟨_, _, rfl, _⟩ | ⟨_, rfl, _⟩
        · exact .inl stopping
        · exact .inl stopping
    | submit clientFd =>
        rcases ThreadPool.leave_of_threadPoolSubmit leaves with ⟨_, rfl, _⟩ | ⟨_, _, rfl, _⟩
        · exact .inl stopping
        · exact .inl stopping
    | shutdown =>
        obtain ⟨_, rfl, _⟩ := ThreadPool.leave_of_threadPoolShutdown leaves
        exact .inr rfl

namespace PoolState

variable [DecidableEq Caller] [DecidableEq Fd] {pool next : PoolState threadCount Caller Fd}
  {capacity : Nat}

/-- What every move preserves. -/
structure Alert (pool : PoolState threadCount Caller Fd) (capacity : Nat) : Prop where
  ordered : pool.Ordered capacity
  fds : pool.monitor.Covered .notEmpty PoolOp.takesFd ThreadPool.count
  slots : pool.monitor.Covered .notFull PoolOp.takesSlot ThreadPool.slots
  stopping : ∀ on, pool.queue.stopping = true → (pool.monitor.conds on).waiting = ∅

/-- Every move keeps the pool alert. -/
theorem Alert.perform (alert : pool.Alert capacity) {move : PoolMove threadCount Caller Fd}
    (performed : pool.perform move = some next) : next.Alert capacity := by
  have consistent := alert.ordered.consistent
  refine ⟨alert.ordered.perform performed, ?_, ?_, fun on => ?_⟩ <;>
    rcases step_of_perform performed with same | step
  · exact same ▸ alert.fds
  · exact step.covered supplies_notEmpty consistent alert.fds
  · exact same ▸ alert.slots
  · exact step.covered supplies_notFull consistent alert.slots
  · have stopping := alert.stopping on
    rwa [queue, ← same] at stopping
  · exact step.closed (closes_stopping on) (alert.stopping on)

omit [DecidableEq Fd] in
/-- The pool is alert in the beginning. -/
theorem alert_init {fds : Nat → Fd}
    (started : threadPoolInit threadCount capacity fds = some pool) : pool.Alert capacity := by
  have ordered := ordered_init started
  unfold threadPoolInit at started
  split at started
  · cases started
  · cases started
    exact ⟨ordered, ordered.consistent.covered_initial, ordered.consistent.covered_initial,
      fun _ _ => rfl⟩

omit [DecidableEq Fd] in
/-- Workers sleep on `not_empty`, callers on `not_full`. -/
theorem Alert.sleepers (alert : pool.Alert capacity) {thread : PoolThread threadCount Caller} :
    (thread ∈ (pool.monitor.conds .notEmpty).sleepers → ∃ index, thread = .worker index) ∧
      (thread ∈ (pool.monitor.conds .notFull).sleepers → ∃ caller, thread = .caller caller) := by
  have consistent := alert.ordered.consistent
  constructor
  · intro member
    obtain ⟨op, asleep⟩ := (consistent.asleep thread .notEmpty).mp member
    have kind := alert.fds.kind thread op asleep
    have mine := consistent.mine thread op (by rw [asleep]; rfl)
    cases op with
    | submit | shutdown => cases kind
    | work =>
        cases thread with
        | worker index => exact ⟨index, rfl⟩
        | caller | closer => exact mine.elim
  · intro member
    obtain ⟨op, asleep⟩ := (consistent.asleep thread .notFull).mp member
    have kind := alert.slots.kind thread op asleep
    have mine := consistent.mine thread op (by rw [asleep]; rfl)
    cases op with
    | work | shutdown => cases kind
    | submit clientFd =>
        cases thread with
        | caller caller => exact ⟨caller, rfl⟩
        | worker | closer => exact mine.elim

omit [DecidableEq Fd] in
/-- A worker that could take a queued descriptor is awake and in its loop. -/
theorem Alert.worker_awake (alert : pool.Alert capacity) (positive : 0 < threadCount)
    (free : pool.monitor.holder = none) (occupied : 0 < pool.queue.count) :
    ∃ index, .worker index ∉ (pool.monitor.conds .notEmpty).waiting ∧ ¬ pool.Exited index := by
  have consistent := alert.ordered.consistent
  have running : ∀ index, ¬ pool.Exited index := by
    intro index exited
    have stopped := consistent.returned _ _ exited
    have empty := (alert.ordered.order.stopped _ stopped).2
    exact occupied.ne' empty
  by_cases waits : (pool.monitor.conds .notEmpty).waiting.Nonempty
  · have covers := alert.fds.covers
    rw [Monitor.Config.taking_of_free free] at covers
    obtain ⟨thread, woken⟩ := Finset.card_pos.mp (occupied.trans_le (covers waits))
    obtain ⟨index, rfl⟩ := alert.sleepers.1 (Finset.mem_union_right _ woken)
    exact ⟨index, Finset.disjoint_right.mp (consistent.separate .notEmpty) woken, running index⟩
  · rw [Finset.not_nonempty_iff_eq_empty] at waits
    exact ⟨⟨0, positive⟩, waits ▸ Finset.notMem_empty _, running _⟩

end PoolState

open PoolState in
/-- **No lost wakeup.** Whenever the mutex is free, a worker waits only if there are not
more descriptors than workers on their way, a caller waits only if there are not more free
slots than callers on their way, and nobody waits when the pool is stopping. So the threads
that could take a descriptor or a slot, or have to leave, never all sleep. -/
theorem no_lost_wakeup [DecidableEq Caller] [DecidableEq Fd] {capacity : Nat} {fds : Nat → Fd}
    {initial pool : PoolState threadCount Caller Fd}
    (started : threadPoolInit threadCount capacity fds = some initial)
    (reached : Reaches PoolState.perform initial pool) (free : pool.monitor.holder = none) :
    let notEmpty := pool.monitor.conds .notEmpty
    let notFull := pool.monitor.conds .notFull
    ((∀ thread ∈ notEmpty.sleepers, ∃ index, thread = .worker index) ∧
        ∀ thread ∈ notFull.sleepers, ∃ caller, thread = .caller caller) ∧
      (notEmpty.waiting.Nonempty → pool.queue.count ≤ notEmpty.woken.card) ∧
      (notFull.waiting.Nonempty → capacity - pool.queue.count ≤ notFull.woken.card) ∧
      (pool.queue.stopping = true → notEmpty.waiting = ∅ ∧ notFull.waiting = ∅) ∧
      (0 < pool.queue.count → ∃ index, .worker index ∉ notEmpty.waiting ∧ ¬ pool.Exited index) ∧
      (pool.queue.count < capacity → notFull.waiting.Nonempty → notFull.woken.Nonempty) := by
  intro notEmpty notFull
  have alert := reached.invariant (fun pool => pool.Alert capacity) (alert_init started)
    fun _ _ _ alert performed => alert.perform performed
  have positive : 0 < threadCount := by
    unfold threadPoolInit at started
    split at started
    · cases started
    · omega
  have fdsCovered := alert.fds.covers
  have slotsCovered := alert.slots.covers
  rw [Monitor.Config.taking_of_free free, Nat.sub_zero] at fdsCovered slotsCovered
  have slots : notFull.waiting.Nonempty → capacity - pool.queue.count ≤ notFull.woken.card := by
    intro waits
    have running : ¬ pool.queue.stopping = true := fun stopping =>
      waits.ne_empty (alert.stopping .notFull stopping)
    have size : pool.queue.capacity = capacity := alert.ordered.order.capacity
    have bound := slotsCovered waits
    change ThreadPool.slots pool.queue ≤ _ at bound
    rwa [ThreadPool.slots, if_neg running, size] at bound
  refine ⟨⟨fun _ => alert.sleepers.1, fun _ => alert.sleepers.2⟩, fdsCovered, slots,
    fun stopping => ⟨alert.stopping _ stopping, alert.stopping _ stopping⟩,
    alert.worker_awake positive free, fun room waits => ?_⟩
  have bound := slots waits
  exact Finset.card_pos.mp (by omega)

/-- Two workers sleep; the submission of a descriptor wakes one of them. -/
theorem no_lost_wakeup_two_workers :
    ∃ pool : PoolState 2 Unit Nat, .worker 1 ∈ (pool.monitor.conds .notEmpty).waiting ∧
      pool.queue.count = 1 ∧ pool.queue.count ≤ (pool.monitor.conds .notEmpty).woken.card := by
  let sleeps (index : Fin 2) : List (PoolMove 2 Unit Nat) :=
    [.schedule (.lock (.worker index)), .schedule (.turn (.worker index) fun _ => none)]
  let moves : List (PoolMove 2 Unit Nat) :=
    sleeps 0 ++ sleeps 1 ++ [.submit () 5, .schedule (.lock (.caller ())),
      .schedule (.turn (.caller ()) fun | .notEmpty => some (.worker 0) | .notFull => none)]
  let run : Option (PoolState 2 Unit Nat) :=
    (threadPoolInit 2 1 fun _ => 0).bind fun pool => moves.foldlM PoolState.perform pool
  have performed : run.isSome := by decide +kernel
  have facts : run.any (fun pool => decide (.worker 1 ∈ (pool.monitor.conds .notEmpty).waiting ∧
      pool.queue.count = 1 ∧ pool.monitor.holder = none)) = true := by decide +kernel
  obtain ⟨pool, same⟩ := Option.isSome_iff_exists.mp performed
  obtain ⟨initial, started, ran⟩ := Option.bind_eq_some_iff.mp same
  rw [same] at facts
  obtain ⟨waits, count, free⟩ := of_decide_eq_true facts
  exact ⟨pool, waits, count,
    (no_lost_wakeup started (reaches_of_foldlM ran) free).2.1 ⟨_, waits⟩⟩

end MiniDbms.Server
