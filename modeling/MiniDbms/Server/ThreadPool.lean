import MiniDbms.Foundation.Machine
import MiniDbms.Foundation.RingBuffer
import MiniDbms.Foundation.Wakeups

/-! # `thread_pool.c`

The critical sections of `worker_loop`, `thread_pool_submit` and `thread_pool_shutdown`
are the turns of a monitor whose shared state is the queue. Around it a worker calls the
handler with each descriptor it takes, any number of callers submit descriptors, and one
thread shuts the pool down and joins the workers. The pool only passes the descriptors
on, so their type `Fd` is left open.
-/

namespace MiniDbms.Server

open Foundation

/-- The part of `ThreadPool` that the mutex protects; `fds` has `capacity` elements. -/
structure ThreadPool (Fd : Type) where
  fds : Nat → Fd
  capacity : Nat
  head : Nat
  tail : Nat
  count : Nat
  stopping : Bool

/-- The condition variables. -/
inductive PoolCond where
  | notEmpty
  | notFull
  deriving DecidableEq

instance fintypePoolCond : Fintype PoolCond where
  elems := {.notEmpty, .notFull}
  complete on := by cases on <;> decide

/-- What is done under the mutex. -/
inductive PoolOp (Fd : Type) where
  /-- One round of `worker_loop`. -/
  | work
  | submit (clientFd : Fd)
  | shutdown
  deriving DecidableEq

inductive PoolResult (Fd : Type) where
  /-- The worker leaves its loop. -/
  | stopped
  | took (clientFd : Fd)
  /-- `thread_pool_submit` returns 0. -/
  | refused
  /-- `thread_pool_submit` returns 1. -/
  | accepted (clientFd : Fd)
  /-- `thread_pool_shutdown` begins to join the workers. -/
  | closing
  deriving DecidableEq

abbrev PoolTurn (Fd : Type) : Type := Turn PoolCond (ThreadPool Fd) (PoolResult Fd)

variable {Fd : Type}

/-- One call of `pthread_cond_signal`. -/
def signalling (on : PoolCond) : PoolCond → Notice := fun other =>
  if other = on then .signal else .silent

/-- `worker_loop` with the mutex. -/
def workerLoop (pool : ThreadPool Fd) : PoolTurn Fd :=
  if !pool.stopping && pool.count == 0 then .wait .notEmpty
  else if pool.stopping && pool.count == 0 then .leave pool (fun _ => .silent) .stopped
  else
    .leave
      { pool with
        head := (pool.head + 1) % pool.capacity
        count := pool.count - 1 }
      (signalling .notFull) (.took (pool.fds pool.head))

/-- `thread_pool_submit` with the mutex. -/
def threadPoolSubmit (clientFd : Fd) (pool : ThreadPool Fd) : PoolTurn Fd :=
  if !pool.stopping && pool.count == pool.capacity then .wait .notFull
  else if pool.stopping then .leave pool (fun _ => .silent) .refused
  else
    .leave
      { pool with
        fds := Function.update pool.fds pool.tail clientFd
        tail := (pool.tail + 1) % pool.capacity
        count := pool.count + 1 }
      (signalling .notEmpty) (.accepted clientFd)

/-- `thread_pool_shutdown` with the mutex. -/
def threadPoolShutdown (pool : ThreadPool Fd) : PoolTurn Fd :=
  .leave { pool with stopping := true } (fun _ => .broadcast) .closing

def poolMonitor (Fd : Type) : Monitor (PoolOp Fd) PoolCond (ThreadPool Fd) (PoolResult Fd) where
  turn
    | .work => workerLoop
    | .submit clientFd => threadPoolSubmit clientFd
    | .shutdown => threadPoolShutdown

inductive PoolThread (threadCount : Nat) (Caller : Type) where
  | worker (index : Fin threadCount)
  | caller (caller : Caller)
  /-- The thread that calls `thread_pool_shutdown`. -/
  | closer
  deriving DecidableEq

abbrev PoolMonitor (threadCount : Nat) (Caller Fd : Type) : Type :=
  Monitor.Config (PoolThread threadCount Caller) (PoolOp Fd) PoolCond (ThreadPool Fd)
    (PoolResult Fd)

/-- The pool with all threads that use it. -/
structure PoolState (threadCount : Nat) (Caller Fd : Type) where
  monitor : PoolMonitor threadCount Caller Fd
  /-- The descriptor that a worker's handler is called with. -/
  handling : Fin threadCount → Option Fd
  /-- All calls of the handler so far. -/
  handled : List (Fin threadCount × Fd)
  /-- `thread_pool_shutdown` has joined the workers and goes on to the final cleanup. -/
  joined : Bool

inductive PoolMove (threadCount : Nat) (Caller Fd : Type) where
  /-- A thread goes on in the monitor. -/
  | schedule (move : Monitor.Move (PoolThread threadCount Caller) PoolCond)
  /-- `thread_pool_submit` is called. -/
  | submit (caller : Caller) (clientFd : Fd)
  /-- A worker calls the handler. -/
  | handle (index : Fin threadCount)
  /-- The handler returns, and the worker begins its next round. -/
  | handlerReturns (index : Fin threadCount)
  /-- `thread_pool_shutdown` is called. -/
  | shutdown
  /-- The last worker has been joined. -/
  | join

variable {threadCount : Nat} {Caller : Type}

/-- `thread_pool_init`, when its allocations succeed. -/
def threadPoolInit (threadCount queueCapacity : Nat) (fds : Nat → Fd) :
    Option (PoolState threadCount Caller Fd) :=
  if threadCount = 0 ∨ queueCapacity = 0 then none
  else
    some {
      monitor := .initial
        (fun
          | .worker _ => .locking .work
          | _ => .outside none)
        { fds := fds, capacity := queueCapacity, head := 0, tail := 0, count := 0
          stopping := false }
      handling := fun _ => none
      handled := []
      joined := false }

namespace PoolState

/-- The queue. -/
def queue (pool : PoolState threadCount Caller Fd) : ThreadPool Fd := pool.monitor.shared

/-- The worker has left its loop. -/
def Exited (pool : PoolState threadCount Caller Fd) (index : Fin threadCount) : Prop :=
  pool.monitor.activity (.worker index) = .outside (some .stopped)

instance decidableExited [DecidableEq Fd] (pool : PoolState threadCount Caller Fd)
    (index : Fin threadCount) : Decidable (pool.Exited index) :=
  inferInstanceAs (Decidable (_ = _))

variable [DecidableEq Caller] [DecidableEq Fd]

/-- One move, if it is possible. -/
def perform (pool : PoolState threadCount Caller Fd) :
    PoolMove threadCount Caller Fd → Option (PoolState threadCount Caller Fd)
  | .schedule move =>
      (pool.monitor.perform (poolMonitor Fd) move).map fun monitor =>
        { pool with monitor := monitor }
  | .submit caller clientFd =>
      (pool.monitor.enter (.caller caller) (.submit clientFd)).map fun monitor =>
        { pool with monitor := monitor }
  | .handle index =>
      match pool.monitor.activity (.worker index), pool.handling index with
      | .outside (some (.took clientFd)), none =>
          some
            { pool with
              handling := Function.update pool.handling index (some clientFd)
              handled := pool.handled ++ [(index, clientFd)] }
      | _, _ => none
  | .handlerReturns index =>
      match pool.handling index with
      | some _ =>
          (pool.monitor.enter (.worker index) .work).map fun monitor =>
            { pool with
              monitor := monitor
              handling := Function.update pool.handling index none }
      | none => none
  | .shutdown =>
      match pool.monitor.activity .closer with
      | .outside none =>
          (pool.monitor.enter .closer .shutdown).map fun monitor => { pool with monitor := monitor }
      | _ => none
  | .join =>
      if pool.monitor.activity .closer = .outside (some .closing) ∧ ∀ index, pool.Exited index then
        some { pool with joined := true }
      else none

end PoolState

end MiniDbms.Server
