import MiniDbms.Foundation.Effort
import MiniDbms.Http.Cutting
import MiniDbms.Server.Ownership

/-! # What the server still has to do

Every move of the server takes some of its effort away, except that an answer of `accept`
brings new work, a thread that wakes up tries its luck again, and what the others in the
process do, an interrupted `recv` and a partial `send` change nothing. So with so many
answers of `accept` and so many wakeups there are only so many other moves
(`MiniDbms.Server.work_bounded`).
-/

namespace MiniDbms.Db

open Foundation Util Bptree

/-- How many steps of `db_insert_internal` are left, with one more for the row to come. -/
def InsertPhase.effort : InsertPhase → Nat
  | .validate => 11
  | .checkDuplicate => 10
  | .reserve => 9
  | .build _ => 8
  | .appendLine _ _ _ => 7
  | .store _ _ _ => 6
  | .increment _ _ _ => 5
  | .advance _ _ _ => 3
  | .insertIndex _ _ _ => 2
  | .serialize _ _ => 1
  | .done _ _ => 0

/-- How many steps of `db_select_projected` are left, on so many rows. -/
def SelectPhase.effort (limit : Nat) : SelectPhase → Nat
  | .openArray => limit + 4
  | .seek _ _ => 3
  | .fetch _ _ _ => 2
  | .scan position _ _ _ _ => limit - position + 2
  | .closeArray _ _ _ => 1
  | .done _ _ => 0

def Task.effort (limit : Nat) : Task → Nat
  | .insert _ phase => phase.effort
  | .select _ phase => phase.effort limit

/-- A call takes a step for each row, as far as the limit says, and eleven more at most. -/
theorem Task.effort_le (limit : Nat) (task : Task) : task.effort limit ≤ limit + 11 := by
  cases task with
  | insert insertion phase =>
      cases phase <;> simp only [effort, InsertPhase.effort] <;> omega
  | select query phase =>
      cases phase <;> simp only [effort, SelectPhase.effort] <;> omega

/-- A step of an insertion leaves less to do, the row that it may add included. -/
theorem insertStep_effort (insertion : Insertion) {phase : InsertPhase} (store : Store)
    (unfinished : Task.result (.insert insertion phase) = none) :
    (insertStep insertion phase store).2.db.count +
        (insertStep insertion phase store).1.effort + 1 ≤ store.db.count + phase.effort := by
  cases phase with
  | validate | checkDuplicate =>
      simp only [insertStep]
      split <;> simp only [InsertPhase.effort] <;> omega
  | reserve =>
      simp only [insertStep]
      split
      · simp only [InsertPhase.effort]
        omega
      · next db heap reserved =>
          have outcome := yields_reserveRecords store.db (store.db.count + 1) insertion.env.heap
          rw [reserved] at outcome
          obtain ⟨_, capacity, rfl⟩ := outcome
          simp only [setCapacity, InsertPhase.effort]
          omega
  | build heap =>
      simp only [insertStep, InsertPhase.effort]
      omega
  | appendLine record recordIndex heap =>
      simp only [insertStep]
      split
      · simp only [InsertPhase.effort]
        omega
      · split <;> simp only [InsertPhase.effort] <;> omega
  | store record recordIndex heap =>
      simp only [insertStep, storeRecord, InsertPhase.effort]
      omega
  | increment record recordIndex heap =>
      simp only [insertStep, incrementCount, InsertPhase.effort]
      omega
  | advance record recordIndex heap =>
      simp only [insertStep, advanceNextId, setNextId, InsertPhase.effort]
      omega
  | insertIndex record recordIndex heap =>
      simp only [insertStep]
      split <;> simp only [setIndex, InsertPhase.effort] <;> omega
  | serialize record heap =>
      simp only [insertStep, InsertPhase.effort]
      omega
  | done result heap => cases unfinished

/-- An intermediate result leaves what is next to do, or an error. -/
theorem proceed_effort {α : Type} {limit left : Nat} {next : α → Heap → SelectPhase}
    (bound : ∀ a heap, (next a heap).effort limit ≤ left)
    (built : Except (List UInt8) α × Heap) : (proceed built next).effort limit ≤ left := by
  rcases built with ⟨message | a, heap⟩
  · exact Nat.zero_le _
  · exact bound a heap

/-- A step of a `select` leaves less to do. -/
theorem selectStep_effort (query : Query) {phase : SelectPhase} (db : DbEngine) (limit : Nat)
    (unfinished : Task.result (.select query phase) = none) :
    (selectStep query phase db).effort limit + (if db.count ≤ limit then 1 else 0) ≤
      phase.effort limit := by
  have one : (if db.count ≤ limit then 1 else 0) ≤ 1 := by
    split <;> omega
  cases phase with
  | openArray =>
      have bound : ∀ (builder : JsonBuilder) (heap : Heap),
          (if query.filter.type = .id then SelectPhase.seek builder heap
            else .scan 0 builder false 0 heap).effort limit ≤ limit + 3 := by
        intro builder heap
        split <;> simp only [SelectPhase.effort] <;> omega
      exact (Nat.add_le_add (proceed_effort bound _) one).trans (Nat.le_refl (limit + 4))
  | seek builder heap =>
      simp only [selectStep, SelectPhase.effort]
      omega
  | fetch recordIndex builder heap =>
      have bound : ∀ (builder : JsonBuilder) (heap : Heap),
          (SelectPhase.closeArray builder 1 heap).effort limit ≤ 1 := fun _ _ => Nat.le_refl 1
      simp only [selectStep]
      split
      · exact Nat.add_le_add (Nat.le_refl 1) one
      · exact Nat.add_le_add (proceed_effort bound _) one
  | scan position builder needComma matched heap =>
      simp only [selectStep]
      split
      · simp only [SelectPhase.effort]
        omega
      · next record here =>
          have inside : position < db.count :=
            (List.getElem?_eq_some_iff.mp here).1.trans_le (List.length_take_le _ _)
          have left : limit - (position + 1) + 2 + (if db.count ≤ limit then 1 else 0) ≤
              limit - position + 2 := by
            split <;> omega
          split
          · refine (Nat.add_le_add_right (proceed_effort ?_ _) _).trans left
            intro builder heap
            exact Nat.le_refl _
          · exact left
  | closeArray builder matched heap =>
      refine Nat.add_le_add (proceed_effort ?_ _) one
      intro builder heap
      exact Nat.le_refl 0
  | done result heap => cases unfinished

/-- A step inside the lock takes effort away, if there are not more rows than the limit. -/
theorem Task.step_effort {task : Task} (store : Store) (limit : Nat)
    (unfinished : task.result = none) :
    (task.step store).2.db.count + (task.step store).1.effort limit +
        (if store.db.count ≤ limit then 1 else 0) ≤ store.db.count + task.effort limit := by
  have one : (if store.db.count ≤ limit then 1 else 0) ≤ 1 := by
    split <;> omega
  cases task with
  | insert insertion phase =>
      have spent := insertStep_effort insertion store unfinished
      simp only [Task.step, Task.effort]
      omega
  | select query phase =>
      have spent := selectStep_effort query store.db limit unfinished
      simp only [Task.step, Task.effort]
      omega

end MiniDbms.Db

namespace MiniDbms.Http

open Foundation

/-- A bound for how often `recv` can still return bytes. -/
def Reading.effort : Reading → Nat
  | .headers received => httpMaxRequest - received.length + 2
  | .body head received => head.totalNeeded - received.length + 1
  | .returned _ => 0

/-- What the second loop has to receive. -/
theorem awaitBody_effort (head : RequestHead) (received : List UInt8) :
    (awaitBody head received).effort ≤ head.totalNeeded - received.length + 1 ∧
      ((awaitBody head received).effort = 0 ∨ received.length < head.totalNeeded) := by
  unfold awaitBody
  split
  · next missing => exact ⟨Nat.le_refl _, .inr missing⟩
  · exact ⟨Nat.zero_le _, .inl rfl⟩

/-- What is left to receive after the first loop stored more bytes. -/
theorem headersReceived_effort (received : List UInt8) :
    (headersReceived received).effort = 0 ∨
      received.length < httpMaxRequest ∧
        (headersReceived received).effort ≤ httpMaxRequest - received.length + 2 := by
  unfold headersReceived
  split
  · split
    · exact .inl rfl
    · next head parsed =>
        have fits := (headerLen_of_parseHead parsed).2
        obtain ⟨bound, done | missing⟩ := awaitBody_effort head received
        · exact .inl done
        · exact .inr ⟨by omega, by omega⟩
  · split
    · next room => exact .inr ⟨room, Nat.le_refl _⟩
    · exact .inl rfl

/-- An answer of `recv` other than an interruption leaves less to be read. -/
theorem receive_effort {reading : Reading} (running : ∀ result, reading ≠ .returned result)
    {answer : Recv} (answered : answer ≠ .interrupted) :
    (reading.receive answer).effort < reading.effort := by
  cases reading with
  | headers received =>
      cases answer with
      | interrupted => exact absurd rfl answered
      | failed => exact Nat.succ_pos _
      | data bytes =>
          simp only [Reading.receive]
          split
          · exact Nat.succ_pos _
          · next some =>
              have more := List.length_pos_iff.mpr some
              have bound := headersReceived_effort (received ++ bytes)
              rw [List.length_append] at bound
              simp only [Reading.effort] at bound ⊢
              omega
  | body head received =>
      cases answer with
      | interrupted => exact absurd rfl answered
      | failed => exact Nat.succ_pos _
      | data bytes =>
          simp only [Reading.receive]
          split
          · exact Nat.succ_pos _
          · next some =>
              have more := List.length_pos_iff.mpr some
              have bound := awaitBody_effort head (received ++ bytes)
              rw [List.length_append] at bound
              simp only [Reading.effort] at bound ⊢
              omega
  | returned result => exact absurd rfl (running result)

end MiniDbms.Http

namespace MiniDbms.Server

open Foundation Util Db Sql Http

variable {threadCount : Nat}

section Pool

variable {Caller Fd : Type}

instance fintypePoolThread [DecidableEq Caller] [Fintype Caller] :
    Fintype (PoolThread threadCount Caller) where
  elems := insert .closer (Finset.univ.image .worker ∪ Finset.univ.image .caller)
  complete thread := by
    cases thread with
    | worker index | caller caller =>
        simp only [Finset.mem_insert, reduceCtorEq, Finset.mem_union, Finset.mem_image,
          Finset.mem_univ, true_and, PoolThread.worker.injEq, PoolThread.caller.injEq, exists_eq,
          exists_false, or_false, or_true]
    | closer => exact Finset.mem_insert_self _ _

theorem sum_poolCond (f : PoolCond → Nat) : ∑ on, f on = f .notEmpty + f .notFull :=
  Finset.sum_pair (by decide)

/-- What an operation costs beside its steps, when a visit of a connection costs so much: what
it gives to others. -/
def PoolOp.cost (threads visit : Nat) : PoolOp Fd → Nat
  | .work => 0
  | .submit _ => visit + 4
  | .shutdown => 4 * threads

/-- The visit that a worker is about to begin. -/
def visitCost (visit : Nat) (pending : Option Fd) : Nat := if pending.isSome then visit else 0

/-- An operation pays for the threads that it wakes and for what it enqueues. -/
theorem turn_cost {op : PoolOp Fd} {pool next : ThreadPool Fd} {notices : PoolCond → Notice}
    {result : PoolResult Fd} (leaves : (poolMonitor Fd).turn op pool = .leave next notices result)
    (threads visit : Nat) :
    (visit + 2) * next.count + visitCost visit (dequeuedBy (.outside (some result))) +
        2 * ∑ on, (notices on).reach threads ≤
      (visit + 2) * pool.count + op.cost threads visit := by
  rw [sum_poolCond]
  cases op with
  | work =>
      rcases ThreadPool.leave_of_workerLoop leaves with
        ⟨_, _, rfl, rfl, rfl⟩ | ⟨occupied, rfl, rfl, rfl⟩
      · exact Nat.le_refl _
      · obtain ⟨count, same⟩ := Nat.exists_eq_succ_of_ne_zero occupied.ne'
        change (visit + 2) * (pool.count - 1) + visit + 2 * (0 + 1) ≤ (visit + 2) * pool.count + 0
        rw [same, Nat.succ_sub_one, Nat.mul_succ (visit + 2)]
        omega
  | submit clientFd =>
      rcases ThreadPool.leave_of_threadPoolSubmit leaves with
        ⟨_, rfl, rfl, rfl⟩ | ⟨_, _, rfl, rfl, rfl⟩
      · exact Nat.le_add_right _ _
      · change (visit + 2) * (pool.count + 1) + 0 + 2 * (1 + 0) ≤ _ + (visit + 4)
        rw [Nat.mul_succ (visit + 2)]
        omega
  | shutdown =>
      obtain ⟨rfl, rfl, rfl⟩ := ThreadPool.leave_of_threadPoolShutdown leaves
      change (visit + 2) * pool.count + 0 + 2 * (threads + threads) ≤ _ + 4 * threads
      omega

namespace PoolState

variable [DecidableEq Caller] [Fintype Caller] {pool next : PoolState threadCount Caller Fd}

/-- What is left to do in the pool, when the visit of a connection costs so much. -/
def effort (visit : Nat) (pool : PoolState threadCount Caller Fd) : Nat :=
  pool.monitor.effort (PoolOp.cost (Fintype.card (PoolThread threadCount Caller)) visit) +
    (visit + 2) * pool.queue.count + ∑ index, visitCost visit (pool.pending index)

omit [Fintype Caller] in
/-- What a worker is about to handle does not depend on the other threads. -/
theorem pending_of_ne {thread : PoolThread threadCount Caller}
    {now : Monitor.Activity (PoolOp Fd) PoolCond (PoolResult Fd)} {index : Fin threadCount}
    (activity : next.monitor.activity = Function.update pool.monitor.activity thread now)
    (handling : next.handling index = pool.handling index)
    (different : .worker index ≠ thread) : next.pending index = pool.pending index := by
  simp only [pending, activity, handling, Function.update_of_ne different]

omit [Fintype Caller] in
/-- One thread goes on in the monitor. -/
theorem sum_pending_le {thread : PoolThread threadCount Caller}
    {now : Monitor.Activity (PoolOp Fd) PoolCond (PoolResult Fd)} (visit : Nat)
    (activity : next.monitor.activity = Function.update pool.monitor.activity thread now)
    (handling : next.handling = pool.handling) :
    ∑ index, visitCost visit (next.pending index) ≤
      ∑ index, visitCost visit (pool.pending index) + visitCost visit (dequeuedBy now) := by
  have same : ∀ index, .worker index ≠ thread → next.pending index = pool.pending index :=
    fun index => pending_of_ne activity (congrFun handling index)
  cases thread with
  | worker index =>
      have change := @sum_change _ _ _ (fun index => visitCost visit (pool.pending index))
        (fun index => visitCost visit (next.pending index)) index fun other different => by
          rw [same other fun impossible => different (PoolThread.worker.inj impossible)]
      have mine : visitCost visit (next.pending index) ≤ visitCost visit (dequeuedBy now) := by
        simp only [pending, activity, Function.update_self]
        split
        · exact Nat.zero_le _
        · exact Nat.le_refl _
      omega
  | caller | closer =>
      rw [Finset.sum_congr rfl fun index _ => by
        rw [same index fun impossible => by cases impossible]]
      exact Nat.le_add_right _ _

variable [DecidableEq Fd] {visit capacity : Nat}

/-- A thread goes on in the monitor. -/
theorem Ordered.schedule_effort (ordered : pool.Ordered capacity)
    {move : Monitor.Move (PoolThread threadCount Caller) PoolCond}
    (performed : pool.perform (.schedule move) = some next) :
    next.effort visit + (if move.wakes then 0 else 1) ≤
      pool.effort visit + (if move.wakes then 2 else 0) := by
  obtain ⟨monitor, stepped, rfl⟩ := Option.map_eq_some_iff.mp performed
  have spends := Monitor.Config.spends_of_perform
    (PoolOp.cost (Fintype.card (PoolThread threadCount Caller)) visit) ordered.consistent stepped
  unfold effort
  cases spends with
  | wakes shared activity spent =>
      have pending : ∀ index, PoolState.pending { pool with monitor := monitor } index =
          pool.pending index := by
        intro index
        simp only [PoolState.pending, activity]
      simp only [queue, shared, pending]
      change _ + 0 ≤ _ + 2
      omega
  | goesOn shared activity before after spent =>
      have pending : ∑ index, visitCost visit (PoolState.pending { pool with monitor := monitor }
          index) ≤ _ := sum_pending_le visit activity rfl
      rename_i now
      have nothing : dequeuedBy now = none := by
        cases now with
        | outside => cases after
        | locking | inside | asleep => rfl
      rw [nothing] at pending
      change _ ≤ _ + 0 at pending
      simp only [queue, shared]
      split <;> omega
  | leaves inside leaves activity spent =>
      have pending : ∑ index, visitCost visit (PoolState.pending { pool with monitor := monitor }
          index) ≤ _ := sum_pending_le visit activity rfl
      have paid := turn_cost leaves (Fintype.card (PoolThread threadCount Caller)) visit
      simp only [queue]
      split <;> omega

omit [DecidableEq Fd] in
/-- A thread begins an operation. -/
theorem enter_effort {thread : PoolThread threadCount Caller} {op : PoolOp Fd}
    (entered : pool.monitor.enter thread op = some next.monitor)
    (pending : ∀ index, next.pending index = pool.pending index) :
    next.effort visit = pool.effort visit +
      (op.cost (Fintype.card (PoolThread threadCount Caller)) visit + 2) := by
  have shared : next.queue = pool.queue := by
    rw [queue, (Monitor.Config.eq_of_enter entered).2]
    rfl
  unfold effort
  rw [Monitor.Config.effort_enter entered, shared]
  simp only [pending]
  omega

/-- A submission brings its visit and the moves of the caller. -/
theorem submit_effort {caller : Caller} {clientFd : Fd}
    (performed : pool.perform (.submit caller clientFd) = some next) :
    next.effort visit = pool.effort visit + (visit + 6) := by
  obtain ⟨monitor, entered, rfl⟩ := Option.map_eq_some_iff.mp performed
  have activity : monitor.activity = Function.update pool.monitor.activity (.caller caller)
      (.locking (.submit clientFd)) := by
    rw [(Monitor.Config.eq_of_enter entered).2]
  have paid : effort visit { pool with monitor := monitor } = _ :=
    enter_effort entered fun index =>
      pending_of_ne activity rfl fun impossible => by cases impossible
  exact paid

/-- The shutdown may wake every thread. -/
theorem shutdown_effort (performed : pool.perform .shutdown = some next) :
    next.effort visit =
      pool.effort visit + (4 * Fintype.card (PoolThread threadCount Caller) + 2) := by
  obtain ⟨entered, same⟩ := shutdown_eq_some performed
  have activity : next.monitor.activity =
      Function.update pool.monitor.activity .closer (.locking .shutdown) := by
    rw [same]
  exact enter_effort entered fun index =>
    pending_of_ne activity (by rw [same]) fun impossible => by cases impossible

/-- A worker that comes back begins a round. -/
theorem handlerReturns_effort {index : Fin threadCount}
    (performed : pool.perform (.handlerReturns index) = some next) :
    next.effort visit = pool.effort visit + 2 := by
  obtain ⟨clientFd, called, entered, same⟩ := handlerReturns_eq_some performed
  refine (enter_effort entered fun other => ?_).trans (congrArg _ (Nat.zero_add 2))
  by_cases here : other = index
  · subst here
    rw [same]
    simp only [PoolState.pending, called, Function.update_self, dequeuedBy]
  · refine pending_of_ne (by rw [same]) ?_ fun impossible => here (PoolThread.worker.inj impossible)
    rw [same]
    exact Function.update_of_ne here _ _

/-- A worker that calls the handler begins a visit. -/
theorem handle_effort {index : Fin threadCount}
    (performed : pool.perform (.handle index) = some next) :
    next.effort visit + visit = pool.effort visit := by
  obtain ⟨clientFd, dequeued, idle, same⟩ := handle_eq_some performed
  have change := @sum_change _ _ _ (fun index => visitCost visit (pool.pending index))
    (fun index => visitCost visit (next.pending index)) index fun other different => by
      rw [same]
      simp only [PoolState.pending, Function.update_of_ne different]
  have before : visitCost visit (pool.pending index) = visit := by
    simp only [PoolState.pending, idle, dequeued, dequeuedBy, visitCost, Option.isSome_some,
      ↓reduceIte]
  have after : visitCost visit (next.pending index) = 0 := by
    rw [same]
    simp only [PoolState.pending, Function.update_self, visitCost, Option.isSome_none,
      Bool.false_eq_true, ↓reduceIte]
  have monitor : next.monitor = pool.monitor := by rw [same]
  rw [before, after] at change
  unfold effort
  rw [queue, queue, monitor]
  omega

theorem join_effort (performed : pool.perform .join = some next) :
    next.effort visit = pool.effort visit := by
  obtain ⟨_, rfl⟩ := join_eq_some performed
  rfl

end PoolState

end Pool

namespace ClientStage

/-- What a worker still has to do for its connection, with so many rows at most. -/
def effort (limit : Nat) (activity : Activity (Call × Environment) Task) : ClientStage → Nat
  | .reading progress => progress.effort + limit + 21
  | .executing _ =>
      match activity with
      | .idle => limit + 20
      | .waiting _ => limit + 19
      | .inside _ here _ => here.effort limit + 7
  | .responding _ => 6
  | .sending => 5
  | .closing => 4
  | .closed => 3

/-- The execution of a statement takes no more than one call. -/
theorem effort_executing_le (limit : Nat) (activity : Activity (Call × Environment) Task)
    (stmt : SqlStatement) : (executing stmt).effort limit activity ≤ limit + 20 := by
  cases activity with
  | idle | waiting => simp only [effort]; omega
  | inside op here ticket =>
      have bound := here.effort_le limit
      simp only [effort]
      omega

end ClientStage

/-- What the visit of a connection costs, with so many rows at most. -/
def visitEffort (limit : Nat) : Nat := limit + 65560

def clientEffort (limit : Nat) (activity : Activity (Call × Environment) Task) :
    Option Client → Nat
  | some client => client.stage.effort limit activity
  | none => 0

/-- What is left of `server_run`, when the accept loop is left as soon as possible. -/
def MainStage.effort (threads : Nat) : MainStage → Nat
  | .looping => 4 * threads + 7
  | .accepting => 4 * threads + 6
  | .submitting _ => 4 * threads + 8
  | .refused _ => 4 * threads + 7
  | .leaving => 4 * threads + 6
  | .stopping => 4 * threads + 5
  | .joining => 2
  | .destroying => 1
  | .returned => 0

/-- `accept` returns. -/
def ServerMove.arrives : ServerMove threadCount → Bool
  | .main (.accept _) => true
  | .main (.acceptFails _) => true
  | _ => false

/-- A thread wakes up without having been woken. -/
def ServerMove.wakes : ServerMove threadCount → Bool
  | .pool move => move.wakes
  | _ => false

/-- The server gets on by itself: nothing comes from outside that leaves it where it is. -/
def ServerMove.advances : ServerMove threadCount → Bool
  | .signal => false
  | .openOther _ => false
  | .closeOther _ => false
  | .pool move => !move.wakes
  | .main (.accept _) => false
  | .main (.acceptFails _) => false
  | .main _ => true
  | .client _ (.recv .interrupted) => false
  | .client _ .send => false
  | .client _ _ => true

/-- What an answer of `accept` and a wakeup bring. -/
def ServerMove.paid (limit : Nat) (move : ServerMove threadCount) : Nat :=
  (if move.arrives then visitEffort limit + 8 else 0) + if move.wakes then 2 else 0

namespace ServerState

/-- What is left to do, when there are never more rows than the limit. The rows are part of it. -/
def effort (limit : Nat) (state : ServerState threadCount) : Nat :=
  state.database.shared.db.count + state.pool.effort (visitEffort limit) +
    ∑ index, clientEffort limit (state.database.activity index) (state.clients index) +
    state.main.effort (Fintype.card (PoolThread threadCount Unit))

variable {limit : Nat} {state next : ServerState threadCount} {index : Fin threadCount}

/-- Only one worker and the engine go on. -/
theorem effort_client
    (pool : next.pool.effort (visitEffort limit) = state.pool.effort (visitEffort limit))
    (main : next.main = state.main)
    (others : ∀ other ≠ index, next.clients other = state.clients other ∧
      next.database.activity other = state.database.activity other) :
    next.effort limit + (state.database.shared.db.count +
        clientEffort limit (state.database.activity index) (state.clients index)) =
      state.effort limit + (next.database.shared.db.count +
        clientEffort limit (next.database.activity index) (next.clients index)) := by
  have change := @sum_change _ _ _
    (fun index => clientEffort limit (state.database.activity index) (state.clients index))
    (fun index => clientEffort limit (next.database.activity index) (next.clients index)) index
    fun other different => by rw [(others other different).1, (others other different).2]
  unfold effort
  rw [pool, main]
  omega

/-- A worker goes on in `handle_client`. -/
theorem effort_setStage (state : ServerState threadCount) (index : Fin threadCount)
    (socket : Socket) (stage : ClientStage) :
    (state.setStage index socket stage).effort limit +
        clientEffort limit (state.database.activity index) (state.clients index) =
      state.effort limit + stage.effort limit (state.database.activity index) := by
  have change := @effort_client _ limit state (state.setStage index socket stage) index rfl rfl
    fun other different => ⟨Function.update_of_ne different _ _, rfl⟩
  have now : clientEffort limit ((state.setStage index socket stage).database.activity index)
      ((state.setStage index socket stage).clients index) =
        stage.effort limit (state.database.activity index) := by
    simp only [setStage, Function.update_self, clientEffort]
  rw [now] at change
  change _ = _ + (state.database.shared.db.count + _) at change
  omega

/-- A step of the engine takes effort from the worker that makes it. -/
theorem spends_of_engineMove {stmt : SqlStatement} {move : EngineMove}
    {database after : Config (Fin threadCount) (Call × Environment) Task Store (DbResult × Heap)}
    (performed : database.perform lockProtocol (engineMove index stmt move) = some after) :
    (∀ other ≠ index, after.activity other = database.activity other) ∧
      ((∀ heap, move ≠ .release heap) ∧
          after.shared.db.count + (ClientStage.executing stmt).effort limit (after.activity index) +
              (if database.shared.db.count ≤ limit then 1 else 0) ≤
            database.shared.db.count +
              (ClientStage.executing stmt).effort limit (database.activity index) ∨
        (∃ heap, move = .release heap) ∧ after.shared = database.shared ∧
          7 ≤ (ClientStage.executing stmt).effort limit (database.activity index)) := by
  have one : (if database.shared.db.count ≤ limit then 1 else 0) ≤ 1 := by
    split <;> omega
  have others : ∀ {other : Fin threadCount} {activity : Activity (Call × Environment) Task},
      other ≠ index → Function.update database.activity index activity other =
        database.activity other := fun different => Function.update_of_ne different _ _
  cases move with
  | request env =>
      simp only [engineMove, Config.perform] at performed
      split at performed
      · next idle =>
          cases performed
          refine ⟨fun other => others, .inl ⟨(fun _ same => by cases same), ?_⟩⟩
          simp only [Function.update_self, idle, ClientStage.effort]
          omega
      · cases performed
  | acquire =>
      simp only [engineMove, Config.perform] at performed
      split at performed
      · next op waiting =>
          split at performed
          · cases performed
            refine ⟨fun other => others, .inl ⟨(fun _ same => by cases same), ?_⟩⟩
            have most := Task.effort_le limit (lockProtocol.start op)
            simp only [Function.update_self, waiting, ClientStage.effort]
            omega
          · cases performed
      · cases performed
  | work =>
      simp only [engineMove, Config.perform] at performed
      split at performed
      · next op here ticket inside =>
          split at performed
          · next unfinished =>
              cases performed
              refine ⟨fun other => others, .inl ⟨(fun _ same => by cases same), ?_⟩⟩
              have spent := Task.step_effort database.shared limit unfinished
              simp only [Function.update_self, inside, ClientStage.effort]
              change (here.step database.shared).2.db.count +
                ((here.step database.shared).1.effort limit + 7) + _ ≤ _
              omega
          · cases performed
      · cases performed
  | release heap =>
      simp only [engineMove, Config.perform] at performed
      split at performed
      · next op here ticket inside =>
          split at performed
          · cases performed
          · cases performed
            refine ⟨fun other => others, .inr ⟨⟨heap, rfl⟩, rfl, ?_⟩⟩
            simp only [inside, ClientStage.effort]
            omega
      · cases performed

/-- A worker's next stage leaves less to do. -/
theorem setStage_effort_lt {socket : Socket} {stage now : ClientStage}
    (here : state.clients index = some { socket := socket, stage := stage })
    (less : now.effort limit (state.database.activity index) <
      stage.effort limit (state.database.activity index)) :
    (state.setStage index socket now).effort limit + 1 ≤ state.effort limit := by
  have change := @effort_setStage _ limit state index socket now
  rw [here] at change
  change _ + stage.effort limit (state.database.activity index) = _ at change
  omega

/-- A step on the engine leaves less to do. -/
theorem performEngine_effort {socket : Socket} {stmt : SqlStatement} {move : EngineMove}
    (here : state.clients index = some { socket := socket, stage := .executing stmt })
    (performed : state.performEngine index socket stmt move = some next) :
    next.effort limit + (if state.database.shared.db.count ≤ limit then 1 else 0) ≤
      state.effort limit := by
  obtain ⟨database, moved, same⟩ := Option.map_eq_some_iff.mp performed
  obtain ⟨others, ⟨goesOn, spent⟩ | ⟨⟨heap, rfl⟩, shared, least⟩⟩ :=
    @spends_of_engineMove _ limit _ _ _ _ _ moved
  · have change := @effort_client _ limit state
      { state with database := database, history := state.history ++ [.database index] } index
      rfl rfl fun other different => ⟨rfl, others other different⟩
    simp only [here, clientEffort] at change
    cases move with
    | request | acquire | work =>
        rw [← same]
        change ServerState.effort limit
          { state with database := database, history := state.history ++ [.database index] } + _ ≤ _
        omega
    | release heap => exact absurd rfl (goesOn heap)
  · have change := @effort_client _ limit state next index (by rw [← same]; rfl)
      (by rw [← same]; rfl) fun other different => by
        rw [← same]
        exact ⟨Function.update_of_ne different _ _, others other different⟩
    have now : ∃ response,
        next.clients index = some { socket := socket, stage := .responding response } := by
      rw [← same]
      exact ⟨_, Function.update_self _ _ _⟩
    obtain ⟨response, now⟩ := now
    have count : next.database.shared = state.database.shared := by
      rw [← same]
      exact shared
    rw [here, now, count] at change
    simp only [clientEffort] at change
    change _ = _ + (_ + 6) at change
    split <;> omega

/-- Whether a move is counted: it advances, and there are not more rows than the limit. -/
def counted (limit : Nat) (state : ServerState threadCount) (move : ServerMove threadCount) : Nat :=
  if move.advances = true ∧ state.database.shared.db.count ≤ limit then 1 else 0

theorem counted_le (limit : Nat) (state : ServerState threadCount) (move : ServerMove threadCount) :
    state.counted limit move ≤ 1 := by
  unfold counted
  split <;> omega

theorem counted_of_stays {move : ServerMove threadCount} (stays : move.advances = false) :
    state.counted limit move = 0 :=
  if_neg fun both => Bool.false_ne_true (stays.symm.trans both.1)

/-- The accept loop goes on to another place in `server_run`, or a thread goes on in the pool. -/
theorem effort_main (pool : PoolState threadCount Unit Socket) (main : MainStage)
    (same : next.database = state.database ∧ next.clients = state.clients ∧ next.pool = pool ∧
      next.main = main) :
    next.effort limit + state.pool.effort (visitEffort limit) +
        state.main.effort (Fintype.card (PoolThread threadCount Unit)) =
      state.effort limit + pool.effort (visitEffort limit) +
        main.effort (Fintype.card (PoolThread threadCount Unit)) := by
  obtain ⟨database, clients, rfl, rfl⟩ := same
  unfold effort
  rw [database, clients]
  omega

/-- A worker that calls `handle_client` pays for the visit with what its connection brought. -/
theorem begin_effort (performed : state.performClient index .begin = some next) :
    next.effort limit + 1 ≤ state.effort limit := by
  obtain ⟨pool, handle, called⟩ := Option.bind_eq_some_iff.mp performed
  obtain ⟨socket, _, rfl⟩ := Option.map_eq_some_iff.mp called
  have paid := @PoolState.handle_effort _ _ _ _ _ _ _ _ (visitEffort limit) _ handle
  have before := @effort_main _ limit state { state with pool := pool } pool state.main
    ⟨rfl, rfl, rfl, rfl⟩
  have change := @effort_setStage _ limit { state with pool := pool } index socket
    (.reading (.headers []))
  change _ = _ + (ClientStage.reading (.headers [])).effort limit
    (state.database.activity index) at change
  have visit : (ClientStage.reading (.headers [])).effort limit
      (state.database.activity index) + 1 = visitEffort limit := by
    simp only [ClientStage.effort, Reading.effort, httpMaxRequest, List.length_nil, visitEffort]
    omega
  omega

/-- An answer of `recv` other than an interruption leaves less to read. -/
theorem recv_effort {answer : Recv}
    (performed : state.performClient index (.recv answer) = some next) :
    next.effort limit + state.counted limit (.client index (.recv answer)) ≤
      state.effort limit := by
  have one := counted_le limit state (.client index (.recv answer))
  simp only [performClient] at performed
  split at performed
  · next socket reading here =>
      split at performed
      · cases performed
      · next running =>
          cases performed
          have received := @effort_setStage _ limit (state.call (.handler index) .recv socket)
            index socket (.reading (reading.receive answer))
          change _ + clientEffort limit _ (state.clients index) = state.effort limit + _
            at received
          rw [here] at received
          simp only [clientEffort, ClientStage.effort] at received
          by_cases interrupted : answer = .interrupted
          · subst interrupted
            have same : reading.receive .interrupted = reading := by
              cases reading <;> rfl
            rw [same] at received
            rw [same, counted_of_stays rfl]
            omega
          · have fewer := receive_effort running interrupted
            omega
  · cases performed

/-- The request has been read: its statement is executed, or the response is known. -/
theorem route_effort {heap : Heap}
    (performed : state.performClient index (.route heap) = some next) :
    next.effort limit + 1 ≤ state.effort limit := by
  simp only [performClient] at performed
  split at performed
  · next socket result here =>
      cases performed
      apply setStage_effort_lt here
      rcases handleRequest_stage result heap with ⟨response, stage⟩ | ⟨stmt, stage⟩
      · rw [stage]
        simp only [ClientStage.effort]
        omega
      · rw [stage]
        have most := ClientStage.effort_executing_le limit (state.database.activity index) stmt
        change _ < Reading.effort _ + limit + 21
        omega
  · cases performed

/-- A worker whose visit is over begins its next round in the pool. -/
theorem returns_effort (performed : state.performClient index .returns = some next) :
    next.effort limit + 1 ≤ state.effort limit := by
  simp only [performClient] at performed
  split at performed
  · next socket here =>
      obtain ⟨pool, handlerReturns, rfl⟩ := Option.map_eq_some_iff.mp performed
      have paid := @PoolState.handlerReturns_effort _ _ _ _ _ _ _ _ (visitEffort limit) _
        handlerReturns
      have before := @effort_main _ limit state { state with pool := pool } pool state.main
        ⟨rfl, rfl, rfl, rfl⟩
      have change := @effort_client _ limit { state with pool := pool }
        { state with pool := pool, clients := Function.update state.clients index none } index
        rfl rfl fun other different => ⟨Function.update_of_ne different _ _, rfl⟩
      dsimp only at change
      rw [here, Function.update_self] at change
      change _ + (_ + 3) = _ + (_ + 0) at change
      omega
  · cases performed

/-- A worker that makes a move has less to do, unless it was interrupted or sends. -/
theorem performClient_effort {move : ClientMove}
    (performed : state.performClient index move = some next) :
    next.effort limit + state.counted limit (.client index move) ≤ state.effort limit := by
  have one := counted_le limit state (.client index move)
  cases move with
  | begin => exact (Nat.add_le_add_left one _).trans (begin_effort performed)
  | recv answer => exact recv_effort performed
  | route heap => exact (Nat.add_le_add_left one _).trans (route_effort performed)
  | engine move =>
      simp only [performClient] at performed
      split at performed
      · next socket stmt here =>
          have spent := @performEngine_effort _ limit _ _ _ _ _ _ here performed
          refine le_trans (Nat.add_le_add_left ?_ _) spent
          unfold counted
          split <;> split <;> omega
      · cases performed
  | respond =>
      simp only [performClient] at performed
      split at performed
      · next socket response here =>
          cases performed
          exact (Nat.add_le_add_left one _).trans (@setStage_effort_lt _ limit
            { state with history := state.history ++ [.response index socket] } index socket _
            .sending here (Nat.lt_succ_self 5))
      · cases performed
  | send =>
      simp only [performClient] at performed
      split at performed
      · cases performed
        exact Nat.le_refl _
      · cases performed
  | sent =>
      simp only [performClient] at performed
      split at performed
      · next socket here =>
          cases performed
          exact (Nat.add_le_add_left one _).trans (setStage_effort_lt here (Nat.lt_succ_self 4))
      · cases performed
  | close =>
      simp only [performClient] at performed
      split at performed
      · next socket here =>
          cases performed
          exact (Nat.add_le_add_left one _).trans (@setStage_effort_lt _ limit
            (state.closeSocket (.handler index) socket) index socket _ .closed here
            (Nat.lt_succ_self 3))
      · cases performed
  | returns => exact (Nat.add_le_add_left one _).trans (returns_effort performed)

/-- The main thread has less to do at its next place. -/
theorem effort_lt_of_main
    (same : next.database = state.database ∧ next.clients = state.clients ∧
      next.pool = state.pool)
    (less : next.main.effort (Fintype.card (PoolThread threadCount Unit)) <
      state.main.effort (Fintype.card (PoolThread threadCount Unit))) :
    next.effort limit + 1 ≤ state.effort limit := by
  have change := @effort_main _ limit state next state.pool next.main
    ⟨same.1, same.2.1, same.2.2, rfl⟩
  omega

/-- A connection that is accepted is paid for. -/
theorem accept_effort {number : Int32}
    (performed : state.performMain (.accept number) = some next) :
    next.effort limit ≤ state.effort limit + (visitEffort limit + 8) := by
  simp only [performMain] at performed
  split at performed
  · next here =>
      split at performed
      · obtain ⟨pool, submit, same⟩ := Option.map_eq_some_iff.mp performed
        have paid := @PoolState.submit_effort _ _ _ _ _ _ _ _ (visitEffort limit) _ _ submit
        have change := @effort_main _ limit state next pool
          (.submitting ⟨number, state.connections⟩) (by rw [← same]; exact ⟨rfl, rfl, rfl, rfl⟩)
        rw [here, paid] at change
        simp only [MainStage.effort] at change
        omega
      · cases performed
  · cases performed

/-- When `accept` fails, the loop may come round once more. -/
theorem acceptFails_effort {error : AcceptError}
    (performed : state.performMain (.acceptFails error) = some next) :
    next.effort limit ≤ state.effort limit + 1 := by
  simp only [performMain] at performed
  split at performed
  · next here =>
      cases performed
      have most : ∀ main : MainStage, main = .looping ∨ main = .leaving →
          ServerState.effort limit { state with main := main } ≤ state.effort limit + 1 := by
        intro main left
        have change := @effort_main _ limit state { state with main := main } _ _
          ⟨rfl, rfl, rfl, rfl⟩
        rw [here] at change
        rcases left with rfl | rfl <;> simp only [MainStage.effort] at change <;> omega
      apply most
      cases error with
      | interrupted => exact .inl rfl
      | badFd => exact .inr rfl
      | other =>
          cases state.shouldStop
          · exact .inl rfl
          · exact .inr rfl
  · cases performed

/-- The main thread has less to do after a move, unless `accept` has returned. -/
theorem performMain_effort {move : MainMove} (performed : state.performMain move = some next) :
    next.effort limit + state.counted limit (.main move) ≤
      state.effort limit + (ServerMove.main move : ServerMove threadCount).paid limit := by
  have one := counted_le limit state (.main move)
  have paidFor : next.effort limit + 1 ≤ state.effort limit →
      next.effort limit + state.counted limit (.main move) ≤
        state.effort limit + (ServerMove.main move : ServerMove threadCount).paid limit :=
    fun less => (Nat.add_le_add_left one _).trans (less.trans (Nat.le_add_right _ _))
  cases move with
  | accept number =>
      rw [counted_of_stays rfl]
      exact accept_effort performed
  | acceptFails error =>
      rw [counted_of_stays rfl]
      change _ ≤ _ + (visitEffort limit + 8 + 0)
      have most := @acceptFails_effort _ limit _ _ _ performed
      omega
  | checkStop =>
      simp only [performMain] at performed
      split at performed
      · next here =>
          cases performed
          refine paidFor (effort_lt_of_main ⟨rfl, rfl, rfl⟩ ?_)
          rw [here]
          dsimp only
          split <;> exact Nat.lt_succ_self _
      · cases performed
  | submitReturns =>
      simp only [performMain] at performed
      split at performed
      · next here _ =>
          cases performed
          exact paidFor (effort_lt_of_main ⟨rfl, rfl, rfl⟩ (by rw [here]; exact Nat.lt_succ_self _))
      · next socket here _ =>
          cases performed
          exact paidFor (effort_lt_of_main ⟨rfl, rfl, rfl⟩ (by rw [here]; exact Nat.lt_succ_self _))
      · cases performed
  | closeRefused | closeListening | destroy =>
      simp only [performMain] at performed
      split at performed
      · next here =>
          cases performed
          exact paidFor (effort_lt_of_main ⟨rfl, rfl, rfl⟩ (by rw [here]; exact Nat.lt_succ_self _))
      · cases performed
  | shutdown =>
      simp only [performMain] at performed
      split at performed
      · next here =>
          obtain ⟨pool, shutdown, rfl⟩ := Option.map_eq_some_iff.mp performed
          have paid := @PoolState.shutdown_effort _ _ _ _ _ _ _ _ (visitEffort limit) shutdown
          have change := @effort_main _ limit state { state with pool := pool, main := .joining }
            pool _ ⟨rfl, rfl, rfl, rfl⟩
          rw [here, paid] at change
          simp only [MainStage.effort] at change
          exact paidFor (by omega)
      · cases performed
  | join =>
      simp only [performMain] at performed
      split at performed
      · next here =>
          obtain ⟨pool, join, rfl⟩ := Option.map_eq_some_iff.mp performed
          have paid := @PoolState.join_effort _ _ _ _ _ _ _ _ (visitEffort limit) join
          have change := @effort_main _ limit state { state with pool := pool, main := .destroying }
            pool _ ⟨rfl, rfl, rfl, rfl⟩
          rw [here, paid] at change
          simp only [MainStage.effort] at change
          exact paidFor (by omega)
      · cases performed

/-- What every move takes and brings. -/
theorem Sound.spends (sound : state.Sound) {move : ServerMove threadCount}
    (performed : state.perform move = some next) :
    next.effort limit + state.counted limit move ≤ state.effort limit + move.paid limit := by
  cases move with
  | signal =>
      cases performed
      exact Nat.le_refl _
  | openOther number | closeOther number =>
      simp only [ServerState.perform] at performed
      split at performed
      · cases performed
        exact Nat.le_refl _
      · cases performed
  | pool move =>
      obtain ⟨pool, moved, rfl⟩ := Option.map_eq_some_iff.mp performed
      have spent := @PoolState.Ordered.schedule_effort _ _ _ _ _ _ _ _ (visitEffort limit) _
        sound.handling.ordered _ moved
      have change := @effort_main _ limit state { state with pool := pool } pool state.main
        ⟨rfl, rfl, rfl, rfl⟩
      have paid : (ServerMove.pool move : ServerMove threadCount).paid limit =
          if move.wakes then 2 else 0 := Nat.zero_add _
      have counts : state.counted limit (.pool move) ≤ if move.wakes then 0 else 1 := by
        cases wakes : move.wakes with
        | true => exact (counted_of_stays (by rw [ServerMove.advances, wakes]; rfl)).le
        | false => exact counted_le _ _ _
      rw [paid]
      omega
  | main move => exact performMain_effort performed
  | client index move => exact (performClient_effort performed).trans (Nat.le_add_right _ _)

/-- The moves of the server are paid for. -/
def potential (threadCount : Nat) :
    Potential (@ServerState.perform threadCount) ServerState.Sound where
  size state := state.database.shared.db.count
  effort := effort
  paid limit move := move.paid limit
  counts := ServerMove.advances
  bounds state := by
    unfold effort
    omega
  keeps _ _ _ sound performed := sound.perform performed
  spends _ _ _ _ sound performed := sound.spends performed

end ServerState

/-- What a run brings, by its arrivals and wakeups. -/
theorem sum_paid (limit : Nat) (moves : List (ServerMove threadCount)) :
    (moves.map fun move => move.paid limit).sum =
      (visitEffort limit + 8) * moves.countP ServerMove.arrives +
        2 * moves.countP ServerMove.wakes := by
  induction moves with
  | nil => rfl
  | cons move moves ih =>
      rw [List.map_cons, List.sum_cons, ih, List.countP_cons, List.countP_cons, Nat.mul_add,
        Nat.mul_add, ServerMove.paid]
      split <;> split <;> omega

/-- The threads are the workers, the accept loop and the closer. -/
theorem card_poolThread_le : Fintype.card (PoolThread threadCount Unit) ≤ threadCount + 2 := by
  refine (Finset.card_insert_le _ _).trans (Nat.add_le_add_right ?_ 1)
  refine (Finset.card_union_le _ _).trans (Nat.add_le_add ?_ ?_)
  · exact Finset.card_image_le.trans (Finset.card_fin threadCount).le
  · exact Finset.card_image_le

/-- In the beginning there are the workers to start. -/
theorem PoolState.effort_init {fds : Nat → Socket} {capacity : Nat}
    {pool : PoolState threadCount Unit Socket}
    (started : threadPoolInit threadCount capacity fds = some pool) (visit : Nat) :
    pool.effort visit ≤ 2 * Fintype.card (PoolThread threadCount Unit) := by
  unfold threadPoolInit at started
  split at started
  · cases started
  · cases started
    have nothing : ∑ index : Fin threadCount, visitCost visit (dequeuedBy
        (.locking (.work : PoolOp Socket))) = 0 := Finset.sum_eq_zero fun _ _ => rfl
    change Monitor.Config.effort _ _ + (visit + 2) * 0 +
      ∑ index : Fin threadCount, visitCost visit (dequeuedBy (.locking (.work : PoolOp Socket))) ≤ _
    rw [nothing, Nat.mul_zero, Nat.add_zero, Nat.mul_comm]
    apply Finset.sum_le_card_nsmul
    intro thread _
    cases thread with
    | worker index => exact Nat.le_refl 2
    | caller | closer => exact Nat.zero_le 2

/-- In the beginning there are the workers to start and the accept loop to leave. -/
theorem ServerState.effort_init {fds : Nat → Socket} {listenFd : Int32} {opened : Int32 → Bool}
    {store : Store} {initial : ServerState threadCount}
    (started : serverInit threadCount fds listenFd opened store = some initial) (limit : Nat) :
    initial.effort limit ≤ store.db.count + 6 * threadCount + 19 := by
  obtain ⟨pool, init, rfl⟩ := Option.map_eq_some_iff.mp started
  have card := @card_poolThread_le threadCount
  have begun := PoolState.effort_init init (visitEffort limit)
  have nobody : ∑ index : Fin threadCount, clientEffort limit .idle none = 0 :=
    Finset.sum_eq_zero fun _ _ => rfl
  change store.db.count + pool.effort (visitEffort limit) +
    ∑ index : Fin threadCount, clientEffort limit .idle none +
      (4 * Fintype.card (PoolThread threadCount Unit) + 7) ≤ _
  omega

/-- **No endless work.** Whatever the clients send, and in every interleaving: in a run in which
`accept` has returned so many times and so many threads have woken up without being woken, the
workers, the accept loop and the shutdown have made only so many moves. The moves are counted that
`ServerMove.advances` names: all but the returns of `accept` and the wakeups, which the bound
depends on, and the signal, what others in the process do, interrupted calls of `recv` and all
calls of `send`. -/
theorem work_bounded {fds : Nat → Socket} {listenFd : Int32} {opened : Int32 → Bool}
    {store : Store} {initial final : ServerState threadCount}
    (started : serverInit threadCount fds listenFd opened store = some initial)
    {moves : List (ServerMove threadCount)}
    (ran : moves.foldlM ServerState.perform initial = some final) :
    let arrivals := moves.countP ServerMove.arrives
    let wakeups := moves.countP ServerMove.wakes
    let limit := store.db.count + 6 * threadCount + 19 + 65568 * arrivals + 2 * wakeups
    moves.countP ServerMove.advances ≤ limit * (arrivals + 1) := by
  intro arrivals wakeups limit
  have most := ServerState.effort_init started
  have enough : initial.effort 0 + (moves.map fun move => move.paid 0).sum ≤ limit := by
    have first := most 0
    rw [sum_paid]
    change _ + ((0 + 65560 + 8) * arrivals + 2 * wakeups) ≤ _
    omega
  have bound := (ServerState.potential threadCount).countP_le (sound_init started) ran enough
  change _ ≤ initial.effort limit + (moves.map fun move => move.paid limit).sum at bound
  rw [sum_paid] at bound
  change _ ≤ _ + ((limit + 65568) * arrivals + 2 * wakeups) at bound
  rw [Nat.add_mul] at bound
  rw [Nat.mul_succ]
  have first := most limit
  change moves.countP ServerMove.advances ≤ _ at bound
  omega

/-- One worker serves a connection that fails at once. -/
theorem work_bounded_failed_recv :
    let worker : PoolThread 1 Unit := .worker 0
    let moves : List (ServerMove 1) :=
      [.pool (.lock worker), .pool (.turn worker fun _ => none), .main .checkStop,
        .main (.accept 5), .pool (.wake worker), .pool (.resume worker),
        .pool (.turn worker fun _ => none), .pool (.lock (.caller ())),
        .pool (.turn (.caller ()) fun on => if on = .notEmpty then some worker else none),
        .pool (.resume worker), .pool (.turn worker fun _ => none), .client 0 .begin,
        .client 0 (.recv .failed), .client 0 (.route .generous), .client 0 .respond,
        .client 0 .send, .client 0 .sent, .client 0 .close]
    moves.countP ServerMove.advances = 15 ∧
      15 ≤ (0 + 6 * 1 + 19 + 65568 * 1 + 2 * 1) * (1 + 1) := by
  intro worker moves
  let path := CString.ofBuffer (ascii "users.db")
  let start : Store := { db := emptyEngine (path.truncate dbPathLimit), file := [] }
  let run : Option (ServerState 1) :=
    (serverInit 1 (fun _ => ⟨0, 0⟩) 3 (fun number => number == 0) start).bind fun state =>
      moves.foldlM ServerState.perform state
  have performed : run.isSome := by decide +kernel
  obtain ⟨final, same⟩ := Option.isSome_iff_exists.mp performed
  obtain ⟨initial, started, ran⟩ := Option.bind_eq_some_iff.mp same
  exact ⟨by decide +kernel, work_bounded started ran⟩

end MiniDbms.Server
