import MiniDbms.Server.Effort
import MiniDbms.Server.Linearizable
import MiniDbms.Server.NoLostWakeup

/-! # The server never gets stuck

In every state that is reached, some thread of the server can go on by itself or a worker waits
for its client, unless the server waits in `accept` with nothing else to do or `server_run` has
returned, and then every connection has been closed (`MiniDbms.Server.never_stuck`). So the
server can be stopped from every state, if the clients let the workers go
(`MiniDbms.Server.can_be_stopped`).
-/

namespace MiniDbms.Server

open Foundation Util Db Sql Http

variable {threadCount : Nat}

/-- Where a thread can be when it is out of the monitor. -/
def MayReturn {Fd : Type} {Caller : Type} : PoolThread threadCount Caller →
    Option (PoolResult Fd) → Prop
  | .worker _, last => last = some .stopped ∨ ∃ clientFd, last = some (.took clientFd)
  | .caller _, _ => True
  | .closer, last => last = none ∨ last = some .closing

section Pool

variable {Caller Fd : Type}

namespace PoolState

variable {pool next : PoolState threadCount Caller Fd} {capacity : Nat}

/-- What every move preserves, beside `Alert`. -/
structure Proper (pool : PoolState threadCount Caller Fd) : Prop where
  returns : ∀ thread last, pool.monitor.activity thread = .outside last → MayReturn thread last
  closing : pool.monitor.activity .closer = .outside (some .closing) → pool.queue.stopping = true

/-- A thread returns what its operation returns, and a pool that is stopping stays so. -/
theorem mayReturn_of_turn {thread : PoolThread threadCount Caller} {op : PoolOp Fd}
    {queue after : ThreadPool Fd} {notices : PoolCond → Notice} {result : PoolResult Fd}
    (mine : Assigned thread op)
    (leaves : (poolMonitor Fd).turn op queue = .leave after notices result) :
    MayReturn thread (some result) ∧ (queue.stopping = true → after.stopping = true) ∧
      (thread = .closer → after.stopping = true) := by
  cases op with
  | work =>
      cases thread with
      | caller | closer => exact mine.elim
      | worker index =>
          rcases ThreadPool.leave_of_workerLoop leaves with
            ⟨stopping, _, rfl, _, rfl⟩ | ⟨_, rfl, _, rfl⟩
          · exact ⟨.inl rfl, id, fun _ => stopping⟩
          · exact ⟨.inr ⟨_, rfl⟩, id, fun impossible => by cases impossible⟩
  | submit clientFd =>
      cases thread with
      | worker | closer => exact mine.elim
      | caller caller =>
          rcases ThreadPool.leave_of_threadPoolSubmit leaves with ⟨_, rfl, _⟩ | ⟨_, _, rfl, _⟩
          · exact ⟨trivial, id, fun impossible => by cases impossible⟩
          · exact ⟨trivial, id, fun impossible => by cases impossible⟩
  | shutdown =>
      cases thread with
      | worker | caller => exact mine.elim
      | closer =>
          obtain ⟨rfl, _, rfl⟩ := ThreadPool.leave_of_threadPoolShutdown leaves
          exact ⟨.inr rfl, fun _ => rfl, fun _ => rfl⟩

/-- The pool is proper in the beginning. -/
theorem proper_init {fds : Nat → Fd}
    (started : threadPoolInit threadCount capacity fds = some pool) : pool.Proper := by
  unfold threadPoolInit at started
  split at started
  · cases started
  · cases started
    refine ⟨fun thread last outside => ?_, fun returned => by cases returned⟩
    cases thread with
    | worker index => cases outside
    | caller caller => trivial
    | closer =>
        cases outside
        exact .inl rfl

/-- Some thread can go on in the pool, or a worker is out of it with a descriptor. -/
def Stirs (pool : PoolState threadCount Caller Fd) : Prop :=
  (∃ thread, pool.monitor.Ready thread) ∨
    ∃ index clientFd, pool.monitor.activity (.worker index) = .outside (some (.took clientFd))

/-- A thread in an operation that is not asleep makes the pool stir. -/
theorem stirs_of_op {thread : PoolThread threadCount Caller} {op : PoolOp Fd}
    (calling : (pool.monitor.activity thread).op = some op)
    (awake : ∀ on, pool.monitor.activity thread = .asleep op on →
      thread ∈ (pool.monitor.conds on).woken) : pool.Stirs := by
  refine .inl ⟨thread, ?_⟩
  unfold Monitor.Config.Ready
  cases place : pool.monitor.activity thread with
  | outside last =>
      rw [place] at calling
      cases calling
  | locking | inside => trivial
  | asleep op' on =>
      rw [place] at calling awake
      cases calling
      exact awake on rfl

/-- A worker with a descriptor to handle has just dequeued it. -/
theorem dequeued_of_pending {index : Fin threadCount} {clientFd : Fd}
    (pending : pool.pending index = some clientFd) :
    pool.monitor.activity (.worker index) = .outside (some (.took clientFd)) := by
  unfold PoolState.pending at pending
  split at pending
  · cases pending
  · unfold dequeuedBy at pending
    split at pending
    · next dequeued =>
        cases pending
        exact dequeued
    · cases pending

variable [DecidableEq Caller]

/-- A step in the monitor keeps the pool proper. -/
theorem Proper.step (proper : pool.Proper) (ordered : pool.Ordered capacity)
    (step : Monitor.Step (poolMonitor Fd) Assigned pool.monitor next.monitor) : next.Proper := by
  obtain ⟨returns, closing⟩ := proper
  have consistent := ordered.consistent
  obtain ⟨monitor, handling, handled, joined⟩ := pool
  obtain ⟨after, handling', handled', joined'⟩ := next
  have busy : ∀ (thread : PoolThread threadCount Caller)
      (now : Monitor.Activity (PoolOp Fd) PoolCond (PoolResult Fd)), now.op.isSome = true →
      (∀ other last, Function.update monitor.activity thread now other = .outside last →
        MayReturn other last) ∧
      (Function.update monitor.activity thread now .closer = .outside (some .closing) →
        monitor.shared.stopping = true) := by
    intro thread now inside
    constructor
    · refine (Function.forall_update_iff monitor.activity fun other activity =>
        ∀ last, activity = .outside last → MayReturn other last).mpr
          ⟨fun last same => ?_, fun other _ => returns other⟩
      rw [same] at inside
      cases inside
    · by_cases here : PoolThread.closer = thread
      · rw [← here, Function.update_self]
        intro same
        rw [same] at inside
        cases inside
      · rw [Function.update_of_ne here]
        exact closing
  change Monitor.Step (poolMonitor Fd) Assigned monitor after at step
  cases step with
  | @enter thread last op idle mine =>
      obtain ⟨first, second⟩ := busy thread (.locking op) rfl
      exact ⟨first, second⟩
  | @lock thread op locking free =>
      obtain ⟨first, second⟩ := busy thread (.inside op) rfl
      exact ⟨first, second⟩
  | @wait thread op on inside waits =>
      obtain ⟨first, second⟩ := busy thread (.asleep op on) rfl
      exact ⟨first, second⟩
  | wake asleep waits => exact ⟨returns, closing⟩
  | @resume thread op on asleep free woken =>
      obtain ⟨first, second⟩ := busy thread (.inside op) rfl
      exact ⟨first, second⟩
  | @leave thread op shared notices result chosen inside leaves allowed =>
      obtain ⟨may, stays, stops⟩ := mayReturn_of_turn
        (consistent.mine thread op (congrArg Monitor.Activity.op inside)) leaves
      refine ⟨?_, ?_⟩
      · refine (Function.forall_update_iff monitor.activity fun other activity =>
          ∀ last, activity = .outside last → MayReturn other last).mpr
            ⟨fun last same => ?_, fun other _ => returns other⟩
        cases same
        exact may
      · change Function.update monitor.activity thread _ .closer = _ → shared.stopping = true
        by_cases here : PoolThread.closer = thread
        · exact fun _ => stops here.symm
        · rw [Function.update_of_ne here]
          exact fun returned => stays (closing returned)

/-- So does every move. -/
theorem Proper.perform [DecidableEq Fd] (proper : pool.Proper) (ordered : pool.Ordered capacity)
    {move : PoolMove threadCount Caller Fd} (performed : pool.perform move = some next) :
    next.Proper := by
  rcases step_of_perform performed with same | step
  · obtain ⟨returns, closing⟩ := proper
    unfold queue at closing
    rw [← same] at returns closing
    exact ⟨returns, closing⟩
  · exact proper.step ordered step

/-- The thread that has the mutex can go on. -/
theorem stirs_of_holder {assigned : PoolThread threadCount Caller → PoolOp Fd → Prop}
    (consistent : pool.monitor.Consistent assigned) {thread : PoolThread threadCount Caller}
    (holder : pool.monitor.holder = some thread) : pool.Stirs := by
  obtain ⟨op, inside⟩ := (consistent.inside thread).mp holder
  refine @stirs_of_op _ _ _ pool thread op (congrArg Monitor.Activity.op inside) fun on asleep => ?_
  cases inside.symm.trans asleep

/-- A worker that is neither waiting nor gone can go on. -/
theorem Alert.stirs_of_worker (alert : pool.Alert capacity) (proper : pool.Proper)
    {index : Fin threadCount} (awake : .worker index ∉ (pool.monitor.conds .notEmpty).waiting)
    (running : ¬ pool.Exited index) : pool.Stirs := by
  have consistent := alert.ordered.consistent
  cases place : pool.monitor.activity (.worker index) with
  | outside last =>
      rcases proper.returns _ last place with rfl | ⟨clientFd, rfl⟩
      · exact absurd place running
      · exact .inr ⟨index, clientFd, place⟩
  | locking op | inside op =>
      refine stirs_of_op (congrArg Monitor.Activity.op place) fun on asleep => ?_
      cases place.symm.trans asleep
  | asleep op on =>
      refine stirs_of_op (congrArg Monitor.Activity.op place) fun on' asleep => ?_
      cases place.symm.trans asleep
      have member := (consistent.asleep (.worker index) on).mpr ⟨op, place⟩
      cases on with
      | notFull =>
          obtain ⟨caller, impossible⟩ := alert.sleepers.2 member
          cases impossible
      | notEmpty => exact (Finset.mem_union.mp member).resolve_left awake

/-- While the queue is not empty, some thread can go on. -/
theorem Alert.stirs_of_occupied (alert : pool.Alert capacity) (proper : pool.Proper)
    (positive : 0 < threadCount) (occupied : 0 < pool.queue.count) : pool.Stirs := by
  cases holder : pool.monitor.holder with
  | some thread => exact stirs_of_holder alert.ordered.consistent holder
  | none =>
      obtain ⟨index, awake, running⟩ := alert.worker_awake positive holder occupied
      exact alert.stirs_of_worker proper awake running

/-- Nobody waits while the pool is stopping. -/
theorem Alert.stirs_of_stopping (alert : pool.Alert capacity) (proper : pool.Proper)
    (stopping : pool.queue.stopping = true) {index : Fin threadCount}
    (running : ¬ pool.Exited index) : pool.Stirs := by
  apply alert.stirs_of_worker proper _ running
  rw [alert.stopping .notEmpty stopping]
  exact Finset.notMem_empty _

/-- While a call of `thread_pool_submit` or `thread_pool_shutdown` has not returned, some thread
can go on. -/
theorem Alert.stirs_of_calling (alert : pool.Alert capacity) (proper : pool.Proper)
    (positive : 0 < threadCount) (room : 0 < capacity) {thread : PoolThread threadCount Caller}
    (notWorker : ∀ index, thread ≠ .worker index) {op : PoolOp Fd}
    (calling : (pool.monitor.activity thread).op = some op) : pool.Stirs := by
  have consistent := alert.ordered.consistent
  by_contra stuck
  apply stuck
  refine stirs_of_op calling fun on asleep => by_contra fun notWoken => stuck ?_
  have member := (consistent.asleep thread on).mpr ⟨op, asleep⟩
  have waits : thread ∈ (pool.monitor.conds on).waiting :=
    (Finset.mem_union.mp member).resolve_right notWoken
  cases on with
  | notEmpty =>
      obtain ⟨index, same⟩ := alert.sleepers.1 member
      exact absurd same (notWorker index)
  | notFull =>
      cases holder : pool.monitor.holder with
      | some holds => exact stirs_of_holder consistent holder
      | none =>
          have covers := alert.slots.covers ⟨thread, waits⟩
          rw [Monitor.Config.taking_of_free holder] at covers
          rcases (pool.monitor.conds .notFull).woken.eq_empty_or_nonempty with
            empty | ⟨other, woken⟩
          · -- No slot is free, so there is something to dequeue.
            have running : pool.queue.stopping = false := by
              rw [Bool.eq_false_iff]
              intro stopping
              rw [alert.stopping .notFull stopping] at waits
              exact Finset.notMem_empty _ waits
            rw [empty, Finset.card_empty, Nat.sub_zero] at covers
            change (if pool.queue.stopping then 0 else pool.queue.capacity - pool.queue.count) ≤ 0
              at covers
            rw [running, if_neg Bool.false_ne_true] at covers
            have size : pool.queue.capacity = capacity := alert.ordered.order.capacity
            exact alert.stirs_of_occupied proper positive (by omega)
          · have asleep := (consistent.asleep other .notFull).mp (Finset.mem_union_right _ woken)
            obtain ⟨op', place⟩ := asleep
            refine stirs_of_op (congrArg Monitor.Activity.op place) fun on asleep => ?_
            cases place.symm.trans asleep
            exact woken

end PoolState

end Pool

/-- What the thread that shuts the pool down does in the pool, when the accept loop is at this
place. -/
def Closes : MainStage → Monitor.Activity (PoolOp Socket) PoolCond (PoolResult Socket) → Prop
  | .joining, activity => activity.op = some .shutdown ∨ activity = .outside (some .closing)
  | .destroying, _ => True
  | .returned, _ => True
  | _, activity => activity = .outside none

/-- What a move in the pool means to the thread that shuts it down. -/
def ClosesOn (before after : Monitor.Activity (PoolOp Socket) PoolCond (PoolResult Socket)) :
    Prop :=
  after = before ∨ before.op = some .shutdown ∧
    (after.op = some .shutdown ∨ after = .outside (some .closing))

/-- The closer goes on as the main thread expects. -/
theorem Closes.goesOn {main : MainStage}
    {before after : Monitor.Activity (PoolOp Socket) PoolCond (PoolResult Socket)}
    (closes : Closes main before) (moves : ClosesOn before after) : Closes main after := by
  rcases moves with rfl | ⟨calling, moved⟩
  · exact closes
  · cases main with
    | joining => exact moved
    | destroying | returned => trivial
    | looping | accepting | submitting | refused | leaving | stopping =>
        have idle : before = .outside none := closes
        rw [idle] at calling
        cases calling

/-- No other move changes where the closer is. -/
theorem closesOn_of_perform {pool next : PoolState threadCount Unit Socket}
    (consistent : pool.monitor.Consistent Assigned) {move : PoolMove threadCount Unit Socket}
    (notShutdown : move ≠ .shutdown) (performed : pool.perform move = some next) :
    ClosesOn (pool.monitor.activity .closer) (next.monitor.activity .closer) := by
  cases move with
  | schedule move =>
      obtain ⟨monitor, stepped, rfl⟩ := Option.map_eq_some_iff.mp performed
      have step : Monitor.Step (poolMonitor Socket) (fun _ _ => False) pool.monitor monitor :=
        Monitor.step_of_perform stepped
      have update : ∀ {thread activity op}, (pool.monitor.activity thread).op = some op →
          activity.op = some op → ClosesOn (pool.monitor.activity .closer)
            (Function.update pool.monitor.activity thread activity .closer) := by
        intro thread activity op before after
        by_cases here : PoolThread.closer = thread
        · subst here
          rw [Function.update_self]
          have mine := consistent.mine .closer op before
          cases op with
          | work | submit => exact mine.elim
          | shutdown => exact .inr ⟨before, .inl after⟩
        · exact .inl (Function.update_of_ne here _ _)
      cases step with
      | enter idle mine => exact mine.elim
      | lock locking free => exact update (by rw [locking]; rfl) rfl
      | wait inside waits => exact update (by rw [inside]; rfl) rfl
      | wake asleep waits => exact .inl rfl
      | resume asleep free woken => exact update (by rw [asleep]; rfl) rfl
      | @leave thread op shared notices result chosen inside leaves allowed =>
          have calling : (pool.monitor.activity thread).op = some op := by rw [inside]; rfl
          by_cases here : PoolThread.closer = thread
          · subst here
            have mine := consistent.mine .closer op calling
            cases op with
            | work | submit => exact mine.elim
            | shutdown =>
                obtain ⟨_, _, rfl⟩ := ThreadPool.leave_of_threadPoolShutdown leaves
                refine .inr ⟨calling, .inr ?_⟩
                dsimp only
                rw [Function.update_self]
          · exact .inl (Function.update_of_ne here _ _)
  | submit caller clientFd =>
      obtain ⟨monitor, entered, rfl⟩ := Option.map_eq_some_iff.mp performed
      obtain rfl := (Monitor.Config.eq_of_enter entered).2
      refine .inl ?_
      dsimp only
      rw [Function.update_of_ne fun impossible => by cases impossible]
  | handle index =>
      obtain ⟨_, _, _, rfl⟩ := PoolState.handle_eq_some performed
      exact .inl rfl
  | handlerReturns index =>
      obtain ⟨_, _, _, rfl⟩ := PoolState.handlerReturns_eq_some performed
      refine .inl ?_
      dsimp only
      rw [Function.update_of_ne fun impossible => by cases impossible]
  | shutdown => exact absurd rfl notShutdown
  | join =>
      obtain ⟨_, rfl⟩ := PoolState.join_eq_some performed
      exact .inl rfl

namespace ServerState

variable {state next : ServerState threadCount}

/-- The workers leave the main thread where it is, and do not shut the pool down. -/
theorem parts_of_performClient {index : Fin threadCount} {move : ClientMove}
    (performed : state.performClient index move = some next) :
    (next.main = state.main ∧ next.shouldStop = state.shouldStop) ∧
      (next.pool = state.pool ∨
        ∃ move, move ≠ .shutdown ∧ state.pool.perform move = some next.pool) ∧
      (next.database = state.database ∨
        ∃ move, state.database.perform lockProtocol move = some next.database) := by
  cases move with
  | begin =>
      obtain ⟨pool, handle, called⟩ := Option.bind_eq_some_iff.mp performed
      obtain ⟨socket, _, rfl⟩ := Option.map_eq_some_iff.mp called
      refine ⟨⟨rfl, rfl⟩, .inr ⟨.handle index, fun impossible => ?_, handle⟩, .inl rfl⟩
      cases impossible
  | recv answer =>
      simp only [performClient] at performed
      split at performed
      · split at performed <;> cases performed
        exact ⟨⟨rfl, rfl⟩, .inl rfl, .inl rfl⟩
      · cases performed
  | route | respond | send | sent | close =>
      simp only [performClient] at performed
      split at performed <;> cases performed
      exact ⟨⟨rfl, rfl⟩, .inl rfl, .inl rfl⟩
  | engine move =>
      simp only [performClient] at performed
      split at performed
      · obtain ⟨database, moved, rfl⟩ := Option.map_eq_some_iff.mp performed
        cases move <;> exact ⟨⟨rfl, rfl⟩, .inl rfl, .inr ⟨_, moved⟩⟩
      · cases performed
  | returns =>
      simp only [performClient] at performed
      split at performed
      · obtain ⟨pool, handlerReturns, rfl⟩ := Option.map_eq_some_iff.mp performed
        refine ⟨⟨rfl, rfl⟩, .inr ⟨.handlerReturns index, fun impossible => ?_, handlerReturns⟩,
          .inl rfl⟩
        cases impossible
      · cases performed

/-- The main thread shuts the pool down when it has left the accept loop. -/
theorem parts_of_performMain (consistent : state.pool.monitor.Consistent Assigned)
    {move : MainMove} (performed : state.performMain move = some next) :
    (next.pool = state.pool ∨ ∃ move, state.pool.perform move = some next.pool) ∧
      (Closes state.main (state.pool.monitor.activity .closer) →
        Closes next.main (next.pool.monitor.activity .closer)) := by
  cases move with
  | checkStop =>
      simp only [performMain] at performed
      split at performed
      · next here =>
          cases performed
          refine ⟨.inl rfl, fun closes => ?_⟩
          rw [here] at closes
          dsimp only
          split <;> exact closes
      · cases performed
  | accept number =>
      simp only [performMain] at performed
      split at performed
      · next here =>
          split at performed
          · obtain ⟨pool, submit, rfl⟩ := Option.map_eq_some_iff.mp performed
            refine ⟨.inr ⟨_, submit⟩, fun closes => ?_⟩
            rw [here] at closes
            exact (show Closes (.submitting _) _ from closes).goesOn
              (closesOn_of_perform consistent (fun impossible => by cases impossible) submit)
          · cases performed
      · cases performed
  | acceptFails error =>
      simp only [performMain] at performed
      split at performed
      · next here =>
          cases performed
          refine ⟨.inl rfl, fun closes => ?_⟩
          rw [here] at closes
          cases error with
          | interrupted | badFd => exact closes
          | other =>
              dsimp only
              split <;> exact closes
      · cases performed
  | submitReturns =>
      simp only [performMain] at performed
      split at performed
      · next here _ =>
          cases performed
          refine ⟨.inl rfl, fun closes => ?_⟩
          rw [here] at closes
          exact closes
      · next here _ =>
          cases performed
          refine ⟨.inl rfl, fun closes => ?_⟩
          rw [here] at closes
          exact closes
      · cases performed
  | closeRefused | closeListening =>
      simp only [performMain] at performed
      split at performed
      · next here =>
          cases performed
          refine ⟨.inl rfl, fun closes => ?_⟩
          rw [here] at closes
          exact closes
      · cases performed
  | shutdown =>
      simp only [performMain] at performed
      split at performed
      · obtain ⟨pool, shutdown, rfl⟩ := Option.map_eq_some_iff.mp performed
        refine ⟨.inr ⟨_, shutdown⟩, fun _ => .inl ?_⟩
        rw [(PoolState.shutdown_eq_some shutdown).2]
        dsimp only
        rw [Function.update_self]
        rfl
      · cases performed
  | join =>
      simp only [performMain] at performed
      split at performed
      · obtain ⟨pool, join, rfl⟩ := Option.map_eq_some_iff.mp performed
        exact ⟨.inr ⟨_, join⟩, fun _ => trivial⟩
      · cases performed
  | destroy =>
      simp only [performMain] at performed
      split at performed
      · cases performed
        exact ⟨.inl rfl, fun _ => trivial⟩
      · cases performed

/-- What is needed for some thread to go on. -/
structure Lively (state : ServerState threadCount) : Prop where
  sound : state.Sound
  alert : state.pool.Alert requestQueueCapacity
  proper : state.pool.Proper
  held : Held state.database
  closes : Closes state.main (state.pool.monitor.activity .closer)

/-- Every move keeps the server lively. -/
theorem Lively.perform (lively : state.Lively) {move : ServerMove threadCount}
    (performed : state.perform move = some next) : next.Lively := by
  have sound := lively.sound.perform performed
  have consistent := lively.alert.ordered.consistent
  have parts : (next.pool = state.pool ∨ ∃ move, state.pool.perform move = some next.pool) ∧
      (next.database = state.database ∨
        ∃ move, state.database.perform lockProtocol move = some next.database) ∧
      (Closes state.main (state.pool.monitor.activity .closer) →
        Closes next.main (next.pool.monitor.activity .closer)) := by
    cases move with
    | signal =>
        cases performed
        exact ⟨.inl rfl, .inl rfl, id⟩
    | openOther number | closeOther number =>
        simp only [ServerState.perform] at performed
        split at performed <;> cases performed
        exact ⟨.inl rfl, .inl rfl, id⟩
    | pool move =>
        obtain ⟨pool, moved, rfl⟩ := Option.map_eq_some_iff.mp performed
        have moves := closesOn_of_perform consistent (by intro impossible; cases impossible) moved
        exact ⟨.inr ⟨_, moved⟩, .inl rfl, fun closes => closes.goesOn moves⟩
    | main move =>
        obtain ⟨pool, closes⟩ := parts_of_performMain consistent performed
        exact ⟨pool, .inl (Transcript.Kept.performMain_aside performed).2.1, closes⟩
    | client index move =>
        obtain ⟨⟨main, _⟩, pool, database⟩ := parts_of_performClient performed
        rw [main]
        refine
          ⟨pool.imp_right fun moves => moves.imp fun _ => And.right, database, fun closes => ?_⟩
        rcases pool with same | ⟨move, notShutdown, moved⟩
        · rw [same]
          exact closes
        · exact closes.goesOn (closesOn_of_perform consistent notShutdown moved)
  obtain ⟨pool, database, closes⟩ := parts
  refine ⟨sound, ?_, ?_, ?_, closes lively.closes⟩
  · rcases pool with same | ⟨_, moved⟩
    · exact same ▸ lively.alert
    · exact lively.alert.perform moved
  · rcases pool with same | ⟨_, moved⟩
    · exact same ▸ lively.proper
    · exact lively.proper.perform lively.alert.ordered moved
  · rcases database with same | ⟨_, moved⟩
    · exact same ▸ lively.held
    · exact lively.held.step (performed_of_perform moved)

/-- The server is lively in the beginning. -/
theorem lively_init {fds : Nat → Socket} {listenFd : Int32} {opened : Int32 → Bool} {store : Store}
    (started : serverInit threadCount fds listenFd opened store = some state) : state.Lively := by
  have sound := sound_init started
  obtain ⟨pool, init, rfl⟩ := Option.map_eq_some_iff.mp started
  refine ⟨sound, PoolState.alert_init init, PoolState.proper_init init, Held.initial, ?_⟩
  unfold threadPoolInit at init
  split at init <;> cases init
  rfl

end ServerState

/-- The move waits for nobody outside of the server. -/
def ServerMove.internal (move : ServerMove threadCount) : Bool :=
  match move with
  | .client _ (.recv _) => false
  | .client _ .sent => false
  | move => move.advances

/-- The worker is in `recv` or `send`. -/
def ClientStage.awaitsClient : ClientStage → Bool
  | .reading (.returned _) => false
  | .reading _ => true
  | .sending => true
  | _ => false

namespace ServerState

variable {state next : ServerState threadCount}

/-- Some thread can go on by itself. -/
def GoesOn (state : ServerState threadCount) : Prop :=
  ∃ move : ServerMove threadCount, move.internal = true ∧ (state.perform move).isSome

/-- Some worker waits for its client. -/
def AwaitsClient (state : ServerState threadCount) : Prop :=
  ∃ index client, state.clients index = some client ∧ client.stage.awaitsClient = true

def Active (state : ServerState threadCount) : Prop := state.GoesOn ∨ state.AwaitsClient

/-- Only workers in `execute_statement` use the engine. -/
def Executes (state : ServerState threadCount) : Prop :=
  ∀ index, state.database.activity index ≠ .idle → ∃ socket stmt,
    state.clients index = some { socket := socket, stage := .executing stmt }

theorem active_of_move (index : Fin threadCount) (move : ClientMove)
    (internal : (ServerMove.client index move).internal = true)
    (possible : (state.performClient index move).isSome) : state.Active :=
  .inl ⟨.client index move, internal, possible⟩

theorem active_of_engine {index : Fin threadCount} {socket : Socket} {stmt : SqlStatement}
    (here : state.clients index = some { socket := socket, stage := .executing stmt })
    (move : EngineMove)
    (possible : (state.database.perform lockProtocol (engineMove index stmt move)).isSome) :
    state.Active := by
  refine active_of_move index (.engine move) rfl ?_
  simp only [performClient, here, performEngine, Option.isSome_map, possible]

/-- A worker with a client can go on, or another one has the lock that it waits for. -/
theorem Lively.active_of_client (lively : state.Lively) (executes : state.Executes)
    {index : Fin threadCount} {client : Client} (here : state.clients index = some client) :
    state.Active := by
  obtain ⟨socket, stage⟩ := client
  cases stage with
  | reading reading =>
      cases reading with
      | returned result =>
          refine active_of_move index (.route .generous) rfl ?_
          simp only [performClient, here, Option.isSome_some]
      | headers received | body head received =>
          exact .inr ⟨index, _, here, rfl⟩
  | executing stmt =>
      by_cases idle : state.database.activity index = .idle
      · refine active_of_engine here (.request .calm) ?_
        simp only [engineMove, Config.perform, idle, Option.isSome_some]
      · obtain ⟨other, busy, possible⟩ := lively.held.goesOn lockProtocol idle
        obtain ⟨socket, stmt, there⟩ := executes other busy
        rcases possible with acquires | works | releases
        · exact active_of_engine there .acquire acquires
        · exact active_of_engine there .work works
        · exact active_of_engine there (.release .generous) releases
  | responding response =>
      refine active_of_move index .respond rfl ?_
      simp only [performClient, here, Option.isSome_some]
  | sending => exact .inr ⟨index, _, here, rfl⟩
  | closing =>
      refine active_of_move index .close rfl ?_
      simp only [performClient, here, Option.isSome_some]
  | closed =>
      have handling : state.pool.handling index = some socket := by
        rw [← lively.sound.handling.serves, Function.comp_apply, here]
        rfl
      have outside := lively.alert.ordered.handles.handling index socket handling
      refine active_of_move index .returns rfl ?_
      simp only [performClient, here, PoolState.perform, handling, Monitor.Config.enter, outside,
        Option.map_some, Option.isSome_some]

/-- When some thread can go on in the pool, the server can. -/
theorem Lively.active_of_stirs (lively : state.Lively) (executes : state.Executes)
    (stirs : state.pool.Stirs) : state.Active := by
  rcases stirs with ⟨thread, ready⟩ | ⟨index, socket, dequeued⟩
  · obtain ⟨move, notWake, possible⟩ :=
      lively.alert.ordered.consistent.goesOn (poolMonitor Socket) ready
    refine .inl ⟨.pool move, congrArg Bool.not notWake, ?_⟩
    simp only [ServerState.perform, PoolState.perform, Option.isSome_map, possible]
  · cases called : state.pool.handling index with
    | some socket =>
        have served : (state.clients index).map Client.socket = some socket := by
          rw [← called, ← lively.sound.handling.serves]
          rfl
        obtain ⟨client, here, _⟩ := Option.map_eq_some_iff.mp served
        exact lively.active_of_client executes here
    | none =>
        refine active_of_move index .begin rfl ?_
        simp only [performClient, PoolState.perform, dequeued, called, Option.bind_some,
          Function.update_self, Option.map_some, Option.isSome_some]

/-- The main thread goes on, or waits for a thread of the pool. -/
theorem Lively.active_of_main (lively : state.Lively) (executes : state.Executes)
    (positive : 0 < threadCount) (busy : state.main ≠ .accepting)
    (running : state.main ≠ .returned) : state.Active := by
  have goes : ∀ move : MainMove, (ServerMove.main move : ServerMove threadCount).internal = true →
      (state.performMain move).isSome → state.Active :=
    fun move internal possible => .inl ⟨.main move, internal, possible⟩
  have calling : ∀ {thread : PoolThread threadCount Unit} {op : PoolOp Socket},
      (∀ index, thread ≠ .worker index) → (state.pool.monitor.activity thread).op = some op →
      state.Active := fun notWorker calls =>
    lively.active_of_stirs executes
      (lively.alert.stirs_of_calling lively.proper positive (by decide) notWorker calls)
  have closes := lively.closes
  cases place : state.main with
  | looping =>
      refine goes .checkStop rfl ?_
      simp only [performMain, place, Option.isSome_some]
  | accepting => exact absurd place busy
  | submitting socket =>
      have calls := lively.sound.accepting.calls
      rw [place] at calls
      rcases calls with submits | refused | accepted
      · exact @calling (.caller ()) _ (fun _ impossible => by cases impossible) submits
      · refine goes .submitReturns rfl ?_
        simp only [performMain, place, refused, Option.isSome_some]
      · refine goes .submitReturns rfl ?_
        simp only [performMain, place, accepted, Option.isSome_some]
  | refused socket =>
      refine goes .closeRefused rfl ?_
      simp only [performMain, place, Option.isSome_some]
  | leaving =>
      refine goes .closeListening rfl ?_
      simp only [performMain, place, Option.isSome_some]
  | stopping =>
      rw [place] at closes
      have outside : state.pool.monitor.activity .closer = .outside none := closes
      refine goes .shutdown rfl ?_
      simp only [performMain, place, PoolState.perform, outside, Monitor.Config.enter,
        Option.map_some, Option.isSome_some]
  | joining =>
      rw [place] at closes
      rcases closes with shuts | closing
      · exact @calling .closer _ (fun _ impossible => by cases impossible) shuts
      · by_cases exited : ∀ index, state.pool.Exited index
        · refine goes .join rfl ?_
          simp only [performMain, place, PoolState.perform, if_pos (And.intro closing exited),
            Option.map_some, Option.isSome_some]
        · obtain ⟨index, running⟩ := not_forall.mp exited
          exact lively.active_of_stirs executes
            (lively.alert.stirs_of_stopping lively.proper (lively.proper.closing closing) running)
  | destroying =>
      refine goes .destroy rfl ?_
      simp only [performMain, place, Option.isSome_some]
  | returned => exact absurd place running

/-- While a connection has not been closed, the server can go on. -/
theorem Lively.active_of_accepted (lively : state.Lively) (executes : state.Executes)
    (positive : 0 < threadCount) {socket : Socket} (member : socket ∈ accepted state.history)
    (notClosed : socket ∉ closed state.history) : state.Active := by
  rcases lively.sound.kept member with closes | mine | queued | ⟨index, pending⟩ | ⟨index, opened⟩
  · exact absurd closes notClosed
  · apply lively.active_of_main executes positive <;> intro place <;> rw [place] at mine <;>
      exact List.not_mem_nil mine
  · apply lively.active_of_stirs executes
    apply lively.alert.stirs_of_occupied lively.proper positive
    have occupied := List.length_pos_of_mem queued
    rw [RingBuffer.length_contents] at occupied
    exact occupied
  · apply lively.active_of_stirs executes
    exact .inr ⟨index, socket, PoolState.dequeued_of_pending pending⟩
  · cases here : state.clients index with
    | none =>
        rw [here] at opened
        cases opened
    | some client => exact lively.active_of_client executes here

/-- What stops the server: a signal, and `accept` fails if the server waits there. -/
def stopSignal (state : ServerState threadCount) : List (ServerMove threadCount) :=
  .signal :: if state.main = .accepting then [.main (.acceptFails .interrupted)] else []

/-- The server has been told to stop, and does not wait in `accept`. -/
def Leaves (state : ServerState threadCount) : Prop :=
  state.shouldStop = true ∧ state.main ≠ .accepting

/-- After the signal the server is on its way out. -/
theorem leaves_of_stopSignal (state : ServerState threadCount) :
    ∃ next, state.stopSignal.foldlM ServerState.perform state = some next ∧ next.Leaves := by
  unfold stopSignal
  by_cases accepting : state.main = .accepting
  · rw [if_pos accepting]
    refine ⟨{ state with shouldStop := true, main := .looping }, ?_, rfl,
      fun impossible => by cases impossible⟩
    simp only [List.foldlM_cons, List.foldlM_nil, ServerState.perform, performMain,
      Option.bind_eq_bind, Option.bind_some, accepting]
    rfl
  · rw [if_neg accepting]
    exact ⟨{ state with shouldStop := true }, rfl, rfl, accepting⟩

/-- The accept loop stays on its way out. -/
theorem Leaves.performMain (leaves : state.Leaves) {move : MainMove}
    (performed : state.performMain move = some next) : next.Leaves := by
  obtain ⟨stop, notAccepting⟩ := leaves
  cases move with
  | checkStop =>
      simp only [ServerState.performMain] at performed
      split at performed
      · cases performed
        refine ⟨stop, ?_⟩
        dsimp only
        rw [if_pos stop]
        exact fun impossible => by cases impossible
      · cases performed
  | accept | acceptFails =>
      simp only [ServerState.performMain] at performed
      cases performed
  | submitReturns =>
      simp only [ServerState.performMain] at performed
      split at performed <;> cases performed
      · exact ⟨stop, fun impossible => by cases impossible⟩
      · exact ⟨stop, fun impossible => by cases impossible⟩
  | closeRefused | closeListening | destroy =>
      simp only [ServerState.performMain] at performed
      split at performed <;> cases performed
      exact ⟨stop, fun impossible => by cases impossible⟩
  | shutdown | join =>
      simp only [ServerState.performMain] at performed
      split at performed
      · obtain ⟨pool, _, rfl⟩ := Option.map_eq_some_iff.mp performed
        exact ⟨stop, fun impossible => by cases impossible⟩
      · cases performed

/-- So does the server. -/
theorem Leaves.perform (leaves : state.Leaves) {move : ServerMove threadCount}
    (performed : state.perform move = some next) : next.Leaves := by
  cases move with
  | signal =>
      cases performed
      exact ⟨rfl, leaves.2⟩
  | openOther number | closeOther number =>
      simp only [ServerState.perform] at performed
      split at performed <;> cases performed
      exact leaves
  | pool move =>
      obtain ⟨pool, _, rfl⟩ := Option.map_eq_some_iff.mp performed
      exact leaves
  | main move => exact leaves.performMain performed
  | client index move =>
      obtain ⟨⟨main, shouldStop⟩, _⟩ := parts_of_performClient performed
      exact ⟨shouldStop.trans leaves.1, main ▸ leaves.2⟩

/-- An internal move advances, and so does a worker whose `recv` or `send` returns. -/
theorem Active.advances (active : state.Active) :
    ∃ move : ServerMove threadCount, move.advances = true ∧ (state.perform move).isSome := by
  rcases active with ⟨move, internal, possible⟩ | ⟨index, ⟨socket, stage⟩, here, awaits⟩
  · refine ⟨move, ?_, possible⟩
    unfold ServerMove.internal at internal
    split at internal
    · cases internal
    · cases internal
    · exact internal
  · cases stage with
    | reading reading =>
        cases reading with
        | returned result => cases awaits
        | headers received | body head received =>
            refine ⟨.client index (.recv .failed), rfl, ?_⟩
            simp only [ServerState.perform, performClient, here, Option.isSome_some]
    | sending =>
        refine ⟨.client index .sent, rfl, ?_⟩
        simp only [ServerState.perform, performClient, here, Option.isSome_some]
    | executing | responding | closing | closed => cases awaits

/-- What the server does by itself is counted and brings nothing. -/
theorem free_of_advances {move : ServerMove threadCount} (advances : move.advances = true) :
    (potential threadCount).Free move := by
  refine ⟨advances, fun limit => ?_⟩
  cases move with
  | signal | openOther | closeOther => cases advances
  | client => rfl
  | pool move =>
      have notWakes : move.wakes = false := by
        rw [ServerMove.advances, Bool.not_eq_true'] at advances
        exact advances
      change 0 + (if move.wakes = true then 2 else 0) = 0
      rw [notWakes]
      rfl
  | main move =>
      cases move with
      | accept | acceptFails => cases advances
      | checkStop | submitReturns | closeRefused | closeListening | shutdown | join | destroy => rfl

end ServerState

/-- A worker that is busy in the engine executes a statement. -/
theorem Serving.executing_of_busy {exchanges : List (Exchange threadCount)}
    {log : CallLog threadCount} {statements : List SqlStatement} {index : Fin threadCount}
    {client : Option Client} {visit : Option Visit} {activity : Activity (Call × Environment) Task}
    (serving : Serving exchanges log statements index client visit activity)
    (busy : activity ≠ .idle) :
    ∃ socket stmt, client = some { socket := socket, stage := .executing stmt } := by
  cases serving with
  | executing socket => exact ⟨_, _, rfl⟩
  | nobody | reading | responding | answered => exact absurd rfl busy

section Runs

variable {fds : Nat → Socket} {listenFd : Int32} {opened : Int32 → Bool} {store : Store}
  {initial state : ServerState threadCount}

theorem lively_of_reaches
    (started : serverInit threadCount fds listenFd opened store = some initial)
    (reached : Reaches ServerState.perform initial state) : state.Lively :=
  reached.invariant ServerState.Lively (ServerState.lively_init started)
    fun _ _ _ lively performed => lively.perform performed

/-- In every state that is reached, who is busy in the engine executes a statement. -/
theorem executes_of_reaches
    (started : serverInit threadCount fds listenFd opened store = some initial)
    (reached : Reaches ServerState.perform initial state) : state.Executes ∧ 0 < threadCount := by
  obtain ⟨transcript, recorded, rfl⟩ := Transcript.exists_of_reaches reached
  obtain ⟨kept, positive⟩ := Transcript.kept_of_reaches started recorded
  exact ⟨fun index busy => (kept.serving index).executing_of_busy busy, positive⟩

/-- **Never stuck.** In every state that is reached, with any number of workers, whatever the
clients send and in every interleaving, some thread can go on by itself or a worker waits in
`recv` or `send`. Otherwise `accept` waits or `server_run` has returned, and then every connection
has been closed. -/
theorem never_stuck
    (started : serverInit threadCount fds listenFd opened store = some initial)
    (reached : Reaches ServerState.perform initial state) :
    state.GoesOn ∨ state.AwaitsClient ∨ (state.main = .accepting ∨ state.main = .returned) ∧
      (closed state.history).Perm (accepted state.history) := by
  apply or_assoc.mp
  have lively := lively_of_reaches started reached
  obtain ⟨executes, positive⟩ := executes_of_reaches started reached
  have owned := lively.sound.owned positive
  by_cases returned : state.main = .returned
  · exact .inr ⟨.inr returned, (owned.returned returned).1⟩
  by_cases accepting : state.main = .accepting
  · by_cases all : ∀ socket ∈ accepted state.history, socket ∈ closed state.history
    · exact .inr ⟨.inl accepting, (List.perm_ext_iff_of_nodup owned.closedOnce owned.distinct).mpr
        fun socket => ⟨fun closes => owned.closedAccepted closes, all socket⟩⟩
    · simp only [not_forall] at all
      obtain ⟨socket, member, notClosed⟩ := all
      exact .inl (lively.active_of_accepted executes positive member notClosed)
  · exact .inl (lively.active_of_main executes positive accepting returned)

end Runs

/-- One worker holds the write lock in an insert, the other one waits for it with its select, a
third connection is queued, and the accept loop waits for a client. -/
theorem never_stuck_contended :
    ∃ state : ServerState 2, state.main = .accepting ∧ state.pool.queue.count = 1 ∧
      state.database.lock.Holds 0 true ∧
      (state.perform (.client 1 (.engine .acquire))).isNone ∧
      (state.GoesOn ∨ state.AwaitsClient ∨ (state.main = .accepting ∨ state.main = .returned) ∧
        (closed state.history).Perm (accepted state.history)) := by
  let query (index : Fin 2) (request : List UInt8) : List (ServerMove 2) :=
    ServerMove.pickup index ++ [.client index (.recv (.data request)),
      .client index (.route .generous), .client index (.engine (.request .calm))]
  let insert := ascii
    "POST /query HTTP/1.1\r\nContent-Length: 35\r\n\r\nINSERT INTO users VALUES (8,'b',31);"
  let select := ascii "POST /query HTTP/1.1\r\nContent-Length: 19\r\n\r\nSELECT * FROM users"
  let moves : List (ServerMove 2) :=
    ServerMove.submission 5 ++ ServerMove.submission 6 ++ ServerMove.submission 7 ++
      query 0 insert ++
      [.client 0 (.engine .acquire), .client 0 (.engine .work)] ++ query 1 select ++
      [.main .checkStop]
  let path := CString.ofBuffer (ascii "users.db")
  let start : Store := { db := emptyEngine (path.truncate dbPathLimit), file := [] }
  let run : Option (ServerState 2) :=
    (serverInit 2 (fun _ => ⟨0, 0⟩) 3 (fun number => number == 0) start).bind fun state =>
      moves.foldlM ServerState.perform state
  have checked : run.any (fun state => decide (state.main = .accepting ∧
      state.pool.queue.count = 1 ∧ state.database.lock.writer = some 0 ∧
      (state.perform (.client 1 (.engine .acquire))).isNone)) = true := by
    decide +kernel
  obtain ⟨state, same, facts⟩ := (Option.any_eq_true _ _).mp checked
  obtain ⟨initial, started, ran⟩ := Option.bind_eq_some_iff.mp same
  obtain ⟨accepting, queued, writer, waits⟩ := of_decide_eq_true facts
  exact ⟨state, accepting, queued, writer, waits, never_stuck started (reaches_of_foldlM ran)⟩

section Runs

variable {fds : Nat → Socket} {listenFd : Int32} {opened : Int32 → Bool} {store : Store}
  {initial state : ServerState threadCount}

/-- When the server is on its way out, it gets there. -/
theorem returns_of_leaves
    (started : serverInit threadCount fds listenFd opened store = some initial)
    (reached : Reaches ServerState.perform initial state) (leaves : state.Leaves) :
    ∃ (moves : List (ServerMove threadCount)) (final : ServerState threadCount),
      moves.foldlM ServerState.perform state = some final ∧
      (∀ move ∈ moves, move.advances = true) ∧ final.main = .returned := by
  let live (state : ServerState threadCount) : Prop :=
    Reaches ServerState.perform initial state ∧ state.Leaves
  have goesOn : ∀ state, live state → ¬ state.main = .returned → ∃ move next,
      (ServerState.potential threadCount).Free move ∧ state.perform move = some next ∧
        live next := by
    intro state holds running
    obtain ⟨reached, leaves⟩ := holds
    have lively := lively_of_reaches started reached
    obtain ⟨executes, positive⟩ := executes_of_reaches started reached
    obtain ⟨move, advances, possible⟩ :=
      (lively.active_of_main executes positive leaves.2 running).advances
    obtain ⟨next, performed⟩ := Option.isSome_iff_exists.mp possible
    exact ⟨move, next, ServerState.free_of_advances advances, performed,
      reached.tail ⟨move, performed⟩, leaves.perform performed⟩
  obtain ⟨moves, final, ran, free, _, returned⟩ :=
    (ServerState.potential threadCount).exists_end
      (fun state holds => (lively_of_reaches started holds.1).sound) goesOn
      (show live state from ⟨reached, leaves⟩)
  exact ⟨moves, final, ran, fun move member => (free move member).1, returned⟩

/-- **The server can be stopped.** From every state that is reached, after a signal, and after one
failure of `accept` if the server waits there, the server gets out of `server_run`. Nothing else
is needed from outside but that `recv` and `send` return, and then every connection has been
closed and every one that was handled has had its response. -/
theorem can_be_stopped
    (started : serverInit threadCount fds listenFd opened store = some initial)
    (reached : Reaches ServerState.perform initial state) :
    ∃ (moves : List (ServerMove threadCount)) (final : ServerState threadCount),
      (state.stopSignal ++ moves).foldlM ServerState.perform state = some final ∧
      (∀ move ∈ moves, move.advances = true) ∧ final.main = .returned ∧
      (closed final.history).Perm (accepted final.history) ∧
      (answered final.history).Perm final.pool.handled := by
  obtain ⟨next, began, leaves⟩ := state.leaves_of_stopSignal
  obtain ⟨moves, final, ran, advance, returned⟩ :=
    returns_of_leaves started (reached.trans (reaches_of_foldlM began)) leaves
  have whole : (state.stopSignal ++ moves).foldlM ServerState.perform state = some final := by
    rw [List.foldlM_append, began]
    exact ran
  have lively := lively_of_reaches started (reached.trans (reaches_of_foldlM whole))
  obtain ⟨_, positive⟩ := executes_of_reaches started reached
  obtain ⟨closes, _, answers⟩ := (lively.sound.owned positive).returned returned
  exact ⟨moves, final, whole, advance, returned, closes, answers⟩

end Runs

/-- The server is stopped while its only worker serves a connection and another one is queued. -/
theorem can_be_stopped_serving :
    ∃ state : ServerState 1, accepted state.history = [⟨5, 0⟩, ⟨6, 1⟩] ∧
      closed state.history = [] ∧
      ∃ (moves : List (ServerMove 1)) (final : ServerState 1),
        (state.stopSignal ++ moves).foldlM ServerState.perform state = some final ∧
        (∀ move ∈ moves, move.advances = true) ∧ final.main = .returned ∧
        (closed final.history).Perm (accepted final.history) ∧
        (answered final.history).Perm final.pool.handled := by
  let moves : List (ServerMove 1) :=
    ServerMove.submission 5 ++ ServerMove.pickup 0 ++ ServerMove.submission 6
  let path := CString.ofBuffer (ascii "users.db")
  let start : Store := { db := emptyEngine (path.truncate dbPathLimit), file := [] }
  let run : Option (ServerState 1) :=
    (serverInit 1 (fun _ => ⟨0, 0⟩) 3 (fun number => number == 0) start).bind fun state =>
      moves.foldlM ServerState.perform state
  have performed : run.isSome := by decide +kernel
  have facts : run.any (fun state => decide (accepted state.history = [⟨5, 0⟩, ⟨6, 1⟩] ∧
      closed state.history = [])) = true := by decide +kernel
  obtain ⟨state, same⟩ := Option.isSome_iff_exists.mp performed
  obtain ⟨initial, started, ran⟩ := Option.bind_eq_some_iff.mp same
  rw [same] at facts
  obtain ⟨connections, opened⟩ := of_decide_eq_true facts
  exact ⟨state, connections, opened, can_be_stopped started (reaches_of_foldlM ran)⟩

end MiniDbms.Server
