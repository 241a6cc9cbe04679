import MiniDbms.Foundation.Tasks
import MiniDbms.Server.ThreadPool

/-! # The queue of the thread pool

In every interleaving of submitting callers, workers and a shutdown, the descriptors
accepted so far are those dequeued so far, followed by those in the ring. When all workers
have left their loops, the handler has been called exactly once with each accepted
descriptor (`MiniDbms.Server.accepted_exactly_once`).
-/

namespace MiniDbms.Server

open Foundation

variable {threadCount : Nat} {Caller Fd : Type}

namespace ThreadPool

variable {pool next : ThreadPool Fd} {clientFd : Fd} {on : PoolCond}
  {notices : PoolCond → Notice} {result : PoolResult Fd}

/-- The queue as a ring buffer. -/
def ring (pool : ThreadPool Fd) : RingBuffer Fd where
  slots := pool.fds
  capacity := pool.capacity
  head := pool.head
  tail := pool.tail
  count := pool.count

/-- The descriptor at the head has been dequeued. -/
def dequeue (pool : ThreadPool Fd) : ThreadPool Fd :=
  { pool with
    head := (pool.head + 1) % pool.capacity
    count := pool.count - 1 }

/-- A descriptor has been stored at the tail. -/
def enqueue (pool : ThreadPool Fd) (clientFd : Fd) : ThreadPool Fd :=
  { pool with
    fds := Function.update pool.fds pool.tail clientFd
    tail := (pool.tail + 1) % pool.capacity
    count := pool.count + 1 }

/-- A worker waits when there is nothing to do yet. -/
theorem wait_of_workerLoop (waits : workerLoop pool = .wait on) :
    pool.stopping = false ∧ pool.count = 0 ∧ on = .notEmpty := by
  simp only [workerLoop] at waits
  split at waits
  · next empty =>
      cases waits
      simpa using empty
  · split at waits <;> cases waits

/-- Otherwise it leaves the loop, if there will be nothing to do any more, or dequeues. -/
theorem leave_of_workerLoop (leaves : workerLoop pool = .leave next notices result) :
    (pool.stopping = true ∧ pool.count = 0 ∧ next = pool ∧ notices = (fun _ => .silent) ∧
        result = .stopped) ∨
      (0 < pool.count ∧ next = pool.dequeue ∧ notices = signalling .notFull ∧
        result = .took pool.ring.front) := by
  simp only [workerLoop] at leaves
  split at leaves
  · cases leaves
  · next occupied =>
      split at leaves
      · next finished =>
          cases leaves
          simp only [Bool.and_eq_true, beq_iff_eq] at finished
          exact .inl ⟨finished.1, finished.2, rfl, rfl, rfl⟩
      · next unfinished =>
          cases leaves
          refine .inr ⟨Nat.pos_of_ne_zero fun empty => ?_, rfl, rfl, rfl⟩
          cases stopping : pool.stopping <;> simp [stopping, empty] at occupied unfinished

/-- A caller waits while the queue is full. -/
theorem wait_of_threadPoolSubmit (waits : threadPoolSubmit clientFd pool = .wait on) :
    pool.stopping = false ∧ pool.count = pool.capacity ∧ on = .notFull := by
  simp only [threadPoolSubmit] at waits
  split at waits
  · next full =>
      cases waits
      simpa using full
  · split at waits <;> cases waits

/-- Otherwise it is refused when the pool is stopping, or enqueues. -/
theorem leave_of_threadPoolSubmit
    (leaves : threadPoolSubmit clientFd pool = .leave next notices result) :
    (pool.stopping = true ∧ next = pool ∧ notices = (fun _ => .silent) ∧ result = .refused) ∨
      (pool.stopping = false ∧ pool.count ≠ pool.capacity ∧ next = pool.enqueue clientFd ∧
        notices = signalling .notEmpty ∧ result = .accepted clientFd) := by
  simp only [threadPoolSubmit] at leaves
  split at leaves
  · cases leaves
  · next room =>
      split at leaves
      · next stopping =>
          cases leaves
          exact .inl ⟨stopping, rfl, rfl, rfl⟩
      · next running =>
          cases leaves
          rw [Bool.not_eq_true] at running
          refine .inr ⟨running, fun full => ?_, rfl, rfl, rfl⟩
          simp [running, full] at room

/-- `thread_pool_shutdown` marks the pool and wakes everybody. -/
theorem leave_of_threadPoolShutdown
    (leaves : threadPoolShutdown pool = .leave next notices result) :
    next = { pool with stopping := true } ∧ notices = (fun _ => .broadcast) ∧
      result = .closing := by
  cases leaves
  exact ⟨rfl, rfl, rfl⟩

end ThreadPool

/-- The threads run their own part of the source. -/
def Assigned : PoolThread threadCount Caller → PoolOp Fd → Prop
  | .worker _, .work => True
  | .caller _, .submit _ => True
  | .closer, .shutdown => True
  | _, _ => False

abbrev PoolEntry (threadCount : Nat) (Caller Fd : Type) : Type :=
  Monitor.Entry (PoolThread threadCount Caller) (PoolResult Fd)

/-- The descriptor for which `thread_pool_submit` returned 1. -/
def acceptance (entry : PoolEntry threadCount Caller Fd) : Option Fd :=
  match entry.result with
  | .accepted clientFd => some clientFd
  | _ => none

/-- The descriptor that a worker dequeued. -/
def dequeuing (entry : PoolEntry threadCount Caller Fd) : Option (Fin threadCount × Fd) :=
  match entry.thread, entry.result with
  | .worker index, .took clientFd => some (index, clientFd)
  | _, _ => none

/-- What the critical sections preserve. -/
structure QueueOrder (capacity : Nat) (queue : ThreadPool Fd)
    (log : List (PoolEntry threadCount Caller Fd)) : Prop where
  capacity : queue.capacity = capacity
  sound : queue.ring.Sound
  order : log.filterMap acceptance =
    (log.filterMap dequeuing).map Prod.snd ++ queue.ring.contents
  stopped : ∀ thread, { thread := thread, result := .stopped } ∈ log →
    queue.stopping = true ∧ queue.count = 0

variable {capacity : Nat} {queue : ThreadPool Fd} {log : List (PoolEntry threadCount Caller Fd)}

/-- A result that moves no descriptor. -/
theorem QueueOrder.order_note (ordered : QueueOrder capacity queue log)
    {entry : PoolEntry threadCount Caller Fd} (accepts : acceptance entry = none)
    (dequeues : dequeuing entry = none) :
    (log ++ [entry]).filterMap acceptance =
      ((log ++ [entry]).filterMap dequeuing).map Prod.snd ++ queue.ring.contents := by
  rw [List.filterMap_append, List.filterMap_append, List.filterMap_cons_none accepts,
    List.filterMap_cons_none dequeues, ordered.order]
  simp only [List.filterMap_nil, List.append_nil]

/-- The worker that leaves its loop finds the queue empty for good. -/
theorem QueueOrder.workerStops (ordered : QueueOrder capacity queue log)
    (stopping : queue.stopping = true) (empty : queue.count = 0) (index : Fin threadCount) :
    QueueOrder capacity queue (log ++ [{ thread := .worker index, result := .stopped }]) where
  capacity := ordered.capacity
  sound := ordered.sound
  order := ordered.order_note rfl rfl
  stopped := fun _ _ => ⟨stopping, empty⟩

/-- Dequeuing takes the first descriptor off the ring. -/
theorem QueueOrder.dequeue (ordered : QueueOrder capacity queue log) (occupied : 0 < queue.count)
    (index : Fin threadCount) :
    QueueOrder capacity queue.dequeue
      (log ++ [{ thread := .worker index, result := .took queue.ring.front }]) where
  capacity := ordered.capacity
  sound := ordered.sound.advance occupied
  order := by
    rw [List.filterMap_append, List.filterMap_append, ordered.order,
      RingBuffer.contents_eq_front_cons ordered.sound occupied]
    simp only [acceptance, dequeuing, List.filterMap_cons, List.filterMap_nil, List.append_nil,
      List.map_append, List.map_cons, List.map_nil, List.append_assoc, List.singleton_append]
    rfl
  stopped := by
    intro thread member
    rcases List.mem_append.mp member with before | now
    · have empty := (ordered.stopped thread before).2
      omega
    · cases List.mem_singleton.mp now

/-- Accepting a descriptor puts it at the end of the ring. -/
theorem QueueOrder.enqueue (ordered : QueueOrder capacity queue log)
    (running : queue.stopping = false) (room : queue.count ≠ queue.capacity) (caller : Caller)
    (clientFd : Fd) :
    QueueOrder capacity (queue.enqueue clientFd)
      (log ++ [{ thread := .caller caller, result := .accepted clientFd }]) where
  capacity := ordered.capacity
  sound := ordered.sound.put (ordered.sound.count_le.lt_of_ne room) clientFd
  order := by
    have appended := RingBuffer.contents_put ordered.sound
      (ordered.sound.count_le.lt_of_ne room) clientFd
    change (queue.enqueue clientFd).ring.contents = _ at appended
    rw [List.filterMap_append, List.filterMap_append, ordered.order, appended]
    simp only [acceptance, dequeuing, List.filterMap_cons, List.filterMap_nil, List.append_nil,
      List.append_assoc]
  stopped := by
    intro thread member
    rcases List.mem_append.mp member with before | now
    · have stopping := (ordered.stopped thread before).1
      rw [running] at stopping
      cases stopping
    · cases List.mem_singleton.mp now

/-- A refused call leaves the queue as it is. -/
theorem QueueOrder.refuse (ordered : QueueOrder capacity queue log) (caller : Caller) :
    QueueOrder capacity queue (log ++ [{ thread := .caller caller, result := .refused }]) where
  capacity := ordered.capacity
  sound := ordered.sound
  order := ordered.order_note rfl rfl
  stopped := by
    intro thread member
    rcases List.mem_append.mp member with before | now
    · exact ordered.stopped thread before
    · cases List.mem_singleton.mp now

/-- Stopping the pool leaves the ring as it is. -/
theorem QueueOrder.close (ordered : QueueOrder capacity queue log) :
    QueueOrder capacity { queue with stopping := true }
      (log ++ [{ thread := .closer, result := .closing }]) where
  capacity := ordered.capacity
  sound := ordered.sound
  order := ordered.order_note rfl rfl
  stopped := by
    intro thread member
    rcases List.mem_append.mp member with before | now
    · exact ⟨rfl, (ordered.stopped thread before).2⟩
    · cases List.mem_singleton.mp now

/-- **Every critical section** keeps the queue in the order of the history. -/
theorem QueueOrder.turn {thread : PoolThread threadCount Caller} {op : PoolOp Fd}
    {next : ThreadPool Fd} {notices : PoolCond → Notice} {result : PoolResult Fd}
    (ordered : QueueOrder capacity queue log) (mine : Assigned thread op)
    (leaves : (poolMonitor Fd).turn op queue = .leave next notices result) :
    QueueOrder capacity next (log ++ [{ thread := thread, result := result }]) := by
  cases op with
  | work =>
      cases thread with
      | worker index =>
          rcases ThreadPool.leave_of_workerLoop leaves with
            ⟨stopping, empty, rfl, _, rfl⟩ | ⟨occupied, rfl, _, rfl⟩
          · exact ordered.workerStops stopping empty index
          · exact ordered.dequeue occupied index
      | caller | closer => exact mine.elim
  | submit clientFd =>
      cases thread with
      | caller caller =>
          rcases ThreadPool.leave_of_threadPoolSubmit leaves with
            ⟨_, rfl, _, rfl⟩ | ⟨running, room, rfl, _, rfl⟩
          · exact ordered.refuse caller
          · exact ordered.enqueue running room caller clientFd
      | worker | closer => exact mine.elim
  | shutdown =>
      cases thread with
      | closer =>
          obtain ⟨rfl, _, rfl⟩ := ThreadPool.leave_of_threadPoolShutdown leaves
          exact ordered.close
      | worker | caller => exact mine.elim

/-- The descriptor that the thread has dequeued, when it is out of the monitor. -/
def dequeuedBy : Monitor.Activity (PoolOp Fd) PoolCond (PoolResult Fd) → Option Fd
  | .outside (some (.took clientFd)) => some clientFd
  | _ => none

/-- The descriptor that a worker has dequeued and is about to call the handler with. -/
def PoolState.pending (pool : PoolState threadCount Caller Fd) (index : Fin threadCount) :
    Option Fd :=
  match pool.handling index with
  | some _ => none
  | none => dequeuedBy (pool.monitor.activity (.worker index))

variable [DecidableEq Caller] [DecidableEq Fd]

namespace PoolState

variable {pool next : PoolState threadCount Caller Fd}

/-- A worker calls the handler with the descriptor it dequeued. -/
theorem handle_eq_some {index : Fin threadCount}
    (performed : pool.perform (.handle index) = some next) :
    ∃ clientFd, pool.monitor.activity (.worker index) = .outside (some (.took clientFd)) ∧
      pool.handling index = none ∧
      next =
        { pool with
          handling := Function.update pool.handling index (some clientFd)
          handled := pool.handled ++ [(index, clientFd)] } := by
  simp only [perform] at performed
  split at performed
  · next clientFd dequeued idle =>
      cases performed
      exact ⟨clientFd, dequeued, idle, rfl⟩
  · cases performed

/-- When the handler returns, the worker goes back to the monitor. -/
theorem handlerReturns_eq_some {index : Fin threadCount}
    (performed : pool.perform (.handlerReturns index) = some next) :
    ∃ clientFd, pool.handling index = some clientFd ∧
      pool.monitor.enter (.worker index) .work = some next.monitor ∧
      next =
        { pool with
          monitor := { pool.monitor with
            activity := Function.update pool.monitor.activity (.worker index) (.locking .work) }
          handling := Function.update pool.handling index none } := by
  simp only [perform] at performed
  split at performed
  · next clientFd called =>
      obtain ⟨monitor, entered, rfl⟩ := Option.map_eq_some_iff.mp performed
      obtain rfl := (Monitor.Config.eq_of_enter entered).2
      exact ⟨clientFd, called, entered, rfl⟩
  · cases performed

/-- The closer begins the shutdown. -/
theorem shutdown_eq_some (performed : pool.perform .shutdown = some next) :
    pool.monitor.enter .closer .shutdown = some next.monitor ∧
      next =
        { pool with monitor := { pool.monitor with
            activity := Function.update pool.monitor.activity .closer (.locking .shutdown) } } := by
  simp only [perform] at performed
  split at performed
  · obtain ⟨monitor, entered, rfl⟩ := Option.map_eq_some_iff.mp performed
    obtain rfl := (Monitor.Config.eq_of_enter entered).2
    exact ⟨entered, rfl⟩
  · cases performed

/-- Joining waits for all workers. -/
theorem join_eq_some (performed : pool.perform .join = some next) :
    (∀ index, pool.Exited index) ∧ next = { pool with joined := true } := by
  simp only [perform] at performed
  split at performed
  · next finished =>
      cases performed
      exact ⟨finished.2, rfl⟩
  · cases performed

/-- What a move does to the monitor. -/
theorem step_of_perform {move : PoolMove threadCount Caller Fd}
    (performed : pool.perform move = some next) :
    next.monitor = pool.monitor ∨
      Monitor.Step (poolMonitor Fd) Assigned pool.monitor next.monitor := by
  cases move with
  | schedule move =>
      obtain ⟨monitor, stepped, rfl⟩ := Option.map_eq_some_iff.mp performed
      exact .inr (Monitor.step_of_perform stepped)
  | submit caller clientFd =>
      obtain ⟨monitor, entered, rfl⟩ := Option.map_eq_some_iff.mp performed
      exact .inr (Monitor.step_of_enter entered trivial)
  | handle index =>
      obtain ⟨_, _, _, rfl⟩ := handle_eq_some performed
      exact .inl rfl
  | handlerReturns index =>
      obtain ⟨_, _, entered, _⟩ := handlerReturns_eq_some performed
      exact .inr (Monitor.step_of_enter entered trivial)
  | shutdown =>
      exact .inr (Monitor.step_of_enter (shutdown_eq_some performed).1 trivial)
  | join =>
      obtain ⟨_, rfl⟩ := join_eq_some performed
      exact .inl rfl

/-- What every worker dequeued it handles in that order, the last one at the latest before
it goes back to the queue. -/
structure Handles (pool : PoolState threadCount Caller Fd) : Prop where
  calls : ∀ index, (pool.monitor.log.filterMap dequeuing).filter (·.1 = index) =
    pool.handled.filter (·.1 = index) ++ (pool.pending index).toList.map (Prod.mk index)
  handling : ∀ index clientFd, pool.handling index = some clientFd →
    pool.monitor.activity (.worker index) = .outside (some (.took clientFd))

omit [DecidableEq Caller] [DecidableEq Fd] in
/-- A worker that is not out of the monitor has handled everything. -/
theorem Handles.pending_eq_none (handles : pool.Handles) (index : Fin threadCount)
    (busy : ∀ last, pool.monitor.activity (.worker index) ≠ .outside last) :
    pool.handling index = none ∧ pool.pending index = none := by
  have idle : pool.handling index = none := by
    rw [Option.eq_none_iff_forall_ne_some]
    exact fun clientFd same => busy _ (handles.handling index clientFd same)
  refine ⟨idle, ?_⟩
  rw [pending, idle]
  cases activity : pool.monitor.activity (.worker index) with
  | outside last => exact absurd activity (busy last)
  | locking | inside | asleep => rfl

omit [DecidableEq Fd] in
/-- A thread that goes on in the monitor handles nothing. -/
theorem Handles.update (handles : pool.Handles) {thread : PoolThread threadCount Caller}
    {activity : Monitor.Activity (PoolOp Fd) PoolCond (PoolResult Fd)}
    {monitor : PoolMonitor threadCount Caller Fd}
    (activities : monitor.activity = Function.update pool.monitor.activity thread activity)
    (log : monitor.log = pool.monitor.log)
    (busy : ∀ index, thread = .worker index →
      (∀ last, pool.monitor.activity thread ≠ .outside last) ∧
        ∀ last, activity ≠ .outside last) :
    Handles { pool with monitor := monitor } where
  calls := by
    intro index
    change (monitor.log.filterMap dequeuing).filter (·.1 = index) = _
    rw [log, handles.calls]
    suffices same : pending { pool with monitor := monitor } index = pool.pending index by rw [same]
    by_cases here : PoolThread.worker index = thread
    · obtain ⟨before, after⟩ := busy index here.symm
      obtain ⟨idle, nothing⟩ := handles.pending_eq_none index (here ▸ before)
      rw [nothing]
      simp only [pending, idle, activities, here, Function.update_self]
      cases activity with
      | outside last => exact absurd rfl (after last)
      | locking | inside | asleep => rfl
    · simp only [pending, activities, Function.update_of_ne here]
  handling := by
    intro index clientFd called
    have outside := handles.handling index clientFd called
    change monitor.activity (.worker index) = _
    rw [activities, Function.update_of_ne, outside]
    rintro rfl
    exact (busy index rfl).1 _ outside

omit [DecidableEq Fd] in
/-- A worker that goes on in the monitor dequeues at most what it is about to handle. -/
theorem Handles.schedule (handles : pool.Handles) {monitor : PoolMonitor threadCount Caller Fd}
    (step : Monitor.Step (poolMonitor Fd) (fun _ _ => False) pool.monitor monitor) :
    Handles { pool with monitor := monitor } := by
  obtain ⟨config, handling, handled, joined⟩ := pool
  change Monitor.Step (poolMonitor Fd) _ config monitor at step
  cases step with
  | enter idle mine => exact mine.elim
  | lock locking free =>
      refine handles.update rfl rfl fun index _ => ⟨fun last => ?_, nofun⟩
      change config.activity _ ≠ _
      rw [locking]
      exact nofun
  | wait inside waits =>
      refine handles.update rfl rfl fun index _ => ⟨fun last => ?_, nofun⟩
      change config.activity _ ≠ _
      rw [inside]
      exact nofun
  | wake asleep waits => exact ⟨handles.calls, handles.handling⟩
  | resume asleep free woken =>
      refine handles.update rfl rfl fun index _ => ⟨fun last => ?_, nofun⟩
      change config.activity _ ≠ _
      rw [asleep]
      exact nofun
  | @leave thread op shared notices result chosen inside leaves allowed =>
      have busy : ∀ last, config.activity thread ≠ .outside last := by
        rw [inside]
        exact nofun
      refine ⟨fun index => ?_, fun index clientFd called => ?_⟩
      · have calls := handles.calls index
        change (config.log.filterMap dequeuing).filter _ = handled.filter _ ++ _ at calls
        change ((config.log ++ [_]).filterMap dequeuing).filter _ = handled.filter _ ++ _
        rw [List.filterMap_append, List.filter_append, calls]
        by_cases here : PoolThread.worker index = thread
        · subst here
          obtain ⟨idle, nothing⟩ := handles.pending_eq_none index busy
          change handling index = none at idle
          rw [nothing]
          simp only [pending, idle, Function.update_self]
          cases result <;> simp [dequeuing, dequeuedBy]
        · have others : (List.filterMap dequeuing
              [{ thread := thread, result := result : PoolEntry threadCount Caller Fd }]).filter
                (·.1 = index) = [] := by
            cases thread with
            | worker other =>
                have different : other ≠ index := fun same => here (same ▸ rfl)
                cases result <;> simp [dequeuing, different]
            | caller | closer => cases result <;> rfl
          rw [others, List.append_nil]
          simp only [pending, Function.update_of_ne here]
      · have outside := handles.handling index clientFd called
        change Function.update config.activity thread _ _ = _
        rw [Function.update_of_ne]
        · exact outside
        · rintro rfl
          exact busy _ outside

omit [DecidableEq Caller] [DecidableEq Fd] in
/-- Calling the handler. -/
theorem Handles.handle (handles : pool.Handles) {index : Fin threadCount} {clientFd : Fd}
    (dequeued : pool.monitor.activity (.worker index) = .outside (some (.took clientFd)))
    (idle : pool.handling index = none) :
    Handles { pool with
      handling := Function.update pool.handling index (some clientFd)
      handled := pool.handled ++ [(index, clientFd)] } where
  calls := by
    intro other
    change (pool.monitor.log.filterMap dequeuing).filter _ =
      (pool.handled ++ [(index, clientFd)]).filter _ ++ _
    rw [handles.calls, List.filter_append]
    by_cases here : other = index
    · subst here
      simp [pending, idle, dequeued, dequeuedBy]
    · simp [pending, here, Ne.symm here]
  handling := (Function.forall_update_iff pool.handling fun other called => ∀ clientFd,
    called = some clientFd → pool.monitor.activity (.worker other) =
      .outside (some (.took clientFd))).mpr
        ⟨fun _ same => Option.some.inj same ▸ dequeued, fun other _ => handles.handling other⟩

omit [DecidableEq Fd] in
/-- The handler returns. -/
theorem Handles.handlerReturns (handles : pool.Handles) {index : Fin threadCount}
    {clientFd : Fd} (called : pool.handling index = some clientFd) :
    Handles { pool with
      monitor := { pool.monitor with
        activity := Function.update pool.monitor.activity (.worker index) (.locking .work) }
      handling := Function.update pool.handling index none } where
  calls := by
    intro other
    change (pool.monitor.log.filterMap dequeuing).filter _ = pool.handled.filter _ ++ _
    rw [handles.calls]
    by_cases here : other = index
    · subst here
      simp [pending, called, dequeuedBy]
    · simp [pending, here]
  handling := by
    intro other clientFd' called'
    change Function.update pool.handling index none other = _ at called'
    change Function.update pool.monitor.activity (.worker index) _ _ = _
    have different : other ≠ index := by
      rintro rfl
      rw [Function.update_self] at called'
      cases called'
    rw [Function.update_of_ne different] at called'
    rw [Function.update_of_ne (by simpa using different)]
    exact handles.handling other clientFd' called'

/-- Every move keeps the handler's calls in step with what was dequeued. -/
theorem Handles.perform (handles : pool.Handles) {move : PoolMove threadCount Caller Fd}
    (performed : pool.perform move = some next) : next.Handles := by
  cases move with
  | schedule move =>
      obtain ⟨monitor, stepped, rfl⟩ := Option.map_eq_some_iff.mp performed
      exact handles.schedule (Monitor.step_of_perform stepped)
  | submit caller clientFd =>
      obtain ⟨monitor, entered, rfl⟩ := Option.map_eq_some_iff.mp performed
      obtain rfl := (Monitor.Config.eq_of_enter entered).2
      exact handles.update rfl rfl nofun
  | handle index =>
      obtain ⟨clientFd, dequeued, idle, rfl⟩ := handle_eq_some performed
      exact handles.handle dequeued idle
  | handlerReturns index =>
      obtain ⟨clientFd, called, _, rfl⟩ := handlerReturns_eq_some performed
      exact handles.handlerReturns called
  | shutdown =>
      obtain ⟨_, rfl⟩ := shutdown_eq_some performed
      exact handles.update rfl rfl nofun
  | join =>
      obtain ⟨_, rfl⟩ := join_eq_some performed
      exact ⟨handles.calls, handles.handling⟩

omit [DecidableEq Caller] [DecidableEq Fd] in
/-- Nobody handles what was not dequeued. -/
theorem Handles.follows (handles : pool.Handles) :
    Follows (pool.monitor.log.filterMap dequeuing) pool.handled pool.pending :=
  handles.calls

/-- What every move preserves. -/
structure Ordered (pool : PoolState threadCount Caller Fd) (capacity : Nat) : Prop where
  consistent : pool.monitor.Consistent Assigned
  order : QueueOrder capacity pool.monitor.shared pool.monitor.log
  handles : pool.Handles

/-- Every move keeps the pool in order. -/
theorem Ordered.perform {capacity : Nat} (ordered : pool.Ordered capacity)
    {move : PoolMove threadCount Caller Fd} (performed : pool.perform move = some next) :
    next.Ordered capacity := by
  have handles := ordered.handles.perform performed
  rcases step_of_perform performed with same | step
  · exact ⟨same ▸ ordered.consistent, same ▸ ordered.order, handles⟩
  · exact ⟨step.consistent ordered.consistent,
      step.history (QueueOrder capacity) (fun _ _ _ _ _ _ _ holds mine leaves =>
        holds.turn mine leaves) ordered.consistent ordered.order, handles⟩

omit [DecidableEq Fd] in
/-- The pool is in order in the beginning. -/
theorem ordered_init {capacity : Nat} {fds : Nat → Fd}
    (started : threadPoolInit threadCount capacity fds = some pool) : pool.Ordered capacity := by
  unfold threadPoolInit at started
  split at started
  · cases started
  · next usable =>
      cases started
      refine ⟨Monitor.Config.consistent_initial _ fun thread => ?_, ⟨rfl, ⟨?_, ?_, ?_⟩, rfl, nofun⟩,
        ⟨fun _ => rfl, nofun⟩⟩
      · cases thread with
        | worker index => exact .inr ⟨.work, rfl, trivial⟩
        | caller | closer => exact .inl rfl
      · change 0 < capacity
        omega
      · exact Nat.zero_le _
      · exact (Nat.zero_mod _).symm

/-- The descriptors accepted so far. -/
def accepted (pool : PoolState threadCount Caller Fd) : List Fd :=
  pool.monitor.log.filterMap acceptance

/-- The descriptors dequeued so far. -/
def dequeued (pool : PoolState threadCount Caller Fd) : List Fd :=
  (pool.monitor.log.filterMap dequeuing).map Prod.snd

/-- In this move `thread_pool_submit` returns 0 to the caller. -/
def Refuses (pool next : PoolState threadCount Caller Fd) (caller : Caller) : Prop :=
  pool.monitor.activity (.caller caller) ≠ .outside (some .refused) ∧
    next.monitor.activity (.caller caller) = .outside (some .refused)

/-- A call is refused only when the pool is stopping, and changes nothing. -/
theorem Ordered.refuses {capacity : Nat} (ordered : pool.Ordered capacity)
    {move : PoolMove threadCount Caller Fd} (performed : pool.perform move = some next)
    {caller : Caller} (refuses : pool.Refuses next caller) :
    pool.queue.stopping = true ∧ next.queue = pool.queue ∧
      next.monitor.conds = pool.monitor.conds ∧ next.accepted = pool.accepted ∧
        next.dequeued = pool.dequeued := by
  obtain ⟨before, after⟩ := refuses
  rcases step_of_perform performed with same | step
  · rw [same] at after
    exact absurd after before
  · obtain ⟨op, shared, notices, chosen, inside, leaves, sharedSame, condsSame, log⟩ :=
      step.leave_of_returned before after
    have mine := ordered.consistent.mine (.caller caller) op (by rw [inside]; rfl)
    cases op with
    | work | shutdown => exact mine.elim
    | submit clientFd =>
        rcases ThreadPool.leave_of_threadPoolSubmit leaves with
          ⟨stopping, rfl, rfl, _⟩ | ⟨_, _, _, _, impossible⟩
        · refine ⟨stopping, sharedSame, funext condsSame, ?_, ?_⟩
          · simp only [accepted, log, List.filterMap_append, acceptance, List.filterMap_cons,
              List.filterMap_nil, List.append_nil]
          · simp only [dequeued, log, List.filterMap_append, dequeuing, List.filterMap_cons,
              List.filterMap_nil, List.append_nil]
        · cases impossible

/-- When all workers have left their loops, the ring is empty and everything that was
dequeued has been handled. -/
theorem Ordered.finished {capacity : Nat} (ordered : pool.Ordered capacity)
    (positive : 0 < threadCount) (finished : ∀ index, pool.Exited index) :
    pool.queue.count = 0 ∧ (pool.handled.map Prod.snd).Perm pool.accepted := by
  have returned := ordered.consistent.returned _ _ (finished ⟨0, positive⟩)
  obtain ⟨_, empty⟩ := ordered.order.stopped _ returned
  refine ⟨empty, ?_⟩
  have nothing : pool.monitor.shared.ring.contents = [] :=
    List.eq_nil_of_length_eq_zero (by rw [RingBuffer.length_contents]; exact empty)
  have none : ∀ index, pool.pending index = none := by
    intro index
    have outside : pool.monitor.activity (.worker index) = .outside (some .stopped) :=
      finished index
    simp only [pending, outside, dequeuedBy]
    split <;> rfl
  have calls : pool.handled.Perm (pool.monitor.log.filterMap dequeuing) :=
    ordered.handles.follows.perm none
  rw [accepted, ordered.order.order, nothing, List.append_nil]
  exact calls.map Prod.snd

end PoolState

open PoolState in
/-- **Exactly once, in order.** In every state that is reached before the final cleanup,
the queue holds the accepted descriptors that have not been dequeued, in their order; a
call is refused only when the pool is stopping and then changes nothing; and when all
workers have left their loops, the handler has been called exactly once with each accepted
descriptor. -/
theorem accepted_exactly_once {capacity : Nat} {fds : Nat → Fd}
    {initial pool : PoolState threadCount Caller Fd}
    (started : threadPoolInit threadCount capacity fds = some initial)
    (reached : Reaches PoolState.perform initial pool) :
    pool.queue.count ≤ capacity ∧
      pool.queue.tail = (pool.queue.head + pool.queue.count) % capacity ∧
      pool.accepted = pool.dequeued ++ pool.queue.ring.contents ∧
      (∀ move next caller, pool.perform move = some next → pool.Refuses next caller →
        pool.queue.stopping = true ∧ next.queue = pool.queue ∧
          next.monitor.conds = pool.monitor.conds ∧ next.accepted = pool.accepted ∧
            next.dequeued = pool.dequeued) ∧
      ((∀ index, pool.Exited index) →
        pool.queue.count = 0 ∧ (pool.handled.map Prod.snd).Perm pool.accepted) := by
  have ordered := reached.invariant (fun pool => pool.Ordered capacity) (ordered_init started)
    fun _ _ _ ordered performed => ordered.perform performed
  have size : pool.queue.capacity = capacity := ordered.order.capacity
  have positive : 0 < threadCount := by
    unfold threadPoolInit at started
    split at started
    · cases started
    · omega
  exact ⟨size ▸ ordered.order.sound.count_le, size ▸ ordered.order.sound.tail_eq,
    ordered.order.order, fun _ _ _ performed refuses => ordered.refuses performed refuses,
    ordered.finished positive⟩

/-- Two workers and a queue for two descriptors: the third caller waits until a worker has taken
the first descriptor, its own goes where that one was, and the second descriptor is handled
before the first. -/
theorem accepted_exactly_once_wraps :
    ∃ pool : PoolState 2 (Fin 3) Nat, (∀ index, pool.Exited index) ∧
      pool.accepted = [7, 8, 9] ∧ pool.handled.map Prod.snd = [8, 7, 9] ∧
      pool.queue.count = 0 ∧ (pool.handled.map Prod.snd).Perm [7, 8, 9] := by
  let turn (thread : PoolThread 2 (Fin 3)) : PoolMove 2 (Fin 3) Nat :=
    .schedule (.turn thread fun _ => none)
  let waking (thread sleeper : PoolThread 2 (Fin 3)) (on : PoolCond) : PoolMove 2 (Fin 3) Nat :=
    .schedule (.turn thread fun other => if other = on then some sleeper else none)
  let lock (thread : PoolThread 2 (Fin 3)) : PoolMove 2 (Fin 3) Nat := .schedule (.lock thread)
  let resume (thread : PoolThread 2 (Fin 3)) : PoolMove 2 (Fin 3) Nat :=
    .schedule (.resume thread)
  let moves : List (PoolMove 2 (Fin 3) Nat) :=
    [lock (.worker 0), turn (.worker 0),
      .submit 0 7, lock (.caller 0), waking (.caller 0) (.worker 0) .notEmpty,
      .submit 1 8, lock (.caller 1), turn (.caller 1),
      .submit 2 9, lock (.caller 2), turn (.caller 2),
      resume (.worker 0), waking (.worker 0) (.caller 2) .notFull,
      resume (.caller 2), turn (.caller 2), lock (.worker 1), turn (.worker 1),
      .handle 1, .handle 0, .handlerReturns 1, lock (.worker 1), turn (.worker 1), .handle 1,
      .handlerReturns 0, .handlerReturns 1, .shutdown, lock .closer, turn .closer,
      lock (.worker 0), turn (.worker 0), lock (.worker 1), turn (.worker 1), .join]
  let run : Option (PoolState 2 (Fin 3) Nat) :=
    (threadPoolInit 2 2 fun _ => 0).bind fun pool => moves.foldlM PoolState.perform pool
  have checked : run.any (fun pool => decide ((∀ index, pool.Exited index) ∧
      pool.accepted = [7, 8, 9] ∧ pool.handled.map Prod.snd = [8, 7, 9])) = true := by
    decide +kernel
  obtain ⟨pool, same, facts⟩ := (Option.any_eq_true _ _).mp checked
  obtain ⟨initial, started, ran⟩ := Option.bind_eq_some_iff.mp same
  obtain ⟨exited, accepted, handled⟩ := of_decide_eq_true facts
  have settled := (accepted_exactly_once started (reaches_of_foldlM ran)).2.2.2.2 exited
  rw [accepted] at settled
  exact ⟨pool, exited, accepted, handled, settled⟩

end MiniDbms.Server
