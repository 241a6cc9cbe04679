import MiniDbms.Db.Steps
import MiniDbms.Server.HandleClient
import MiniDbms.Server.ThreadPool

/-! # `server_run`

The accept loop, the thread pool whose handler is `handle_client`, the engine with its
lock, and the kernel's table of descriptors. The kernel gives an accepted connection any
number that is not in use, and anything else in the process may open and close other
descriptors meanwhile.
-/

namespace MiniDbms.Server

open Foundation Util Db Sql Http

/-- What a descriptor number stands for. -/
inductive Descriptor where
  | listening
  | connection (id : Nat)
  | other
  deriving DecidableEq

/-- The `client_fd` of an accepted connection. The code has the number only; `connection`
says which connection it was accepted for. -/
structure Socket where
  number : Int32
  connection : Nat
  deriving DecidableEq

inductive Syscall where
  | recv
  | send
  | close
  deriving DecidableEq

/-- Who makes a system call: a worker in `handle_client`, or the accept loop. -/
inductive Party (threadCount : Nat) where
  | handler (index : Fin threadCount)
  | acceptLoop
  deriving DecidableEq

/-- What is recorded of a run. -/
inductive Event (threadCount : Nat) where
  | accepted (socket : Socket)
  /-- A system call on the number of a connection, and what the number stands for. -/
  | call (party : Party threadCount) (syscall : Syscall) (socket : Socket)
      (target : Option Descriptor)
  /-- A call of `send_json_response`. -/
  | response (index : Fin threadCount) (socket : Socket)
  /-- A step of a handler on the `DbEngine`. -/
  | database (index : Fin threadCount)
  /-- `db_destroy`. -/
  | destroyed
  deriving DecidableEq

/-- Where the main thread is in `server_run`. -/
inductive MainStage where
  /-- At the condition of the accept loop. -/
  | looping
  | accepting
  /-- In `thread_pool_submit`. -/
  | submitting (socket : Socket)
  /-- About to close a refused connection. -/
  | refused (socket : Socket)
  /-- Behind the loop. -/
  | leaving
  /-- About to call `thread_pool_shutdown`. -/
  | stopping
  /-- In `thread_pool_shutdown`. -/
  | joining
  /-- About to call `db_destroy`. -/
  | destroying
  | returned
  deriving DecidableEq

/-- A call of `handle_client` that has not returned. -/
structure Client where
  socket : Socket
  stage : ClientStage

structure ServerState (threadCount : Nat) where
  pool : PoolState threadCount Unit Socket
  main : MainStage
  /-- `g_should_stop`. -/
  shouldStop : Bool
  listenFd : Int32
  table : Int32 → Option Descriptor
  /-- The number of connections accepted so far. -/
  connections : Nat
  clients : Fin threadCount → Option Client
  database : Config (Fin threadCount) (Call × Environment) Task Store (DbResult × Heap)
  history : List (Event threadCount)

/-- The ways in which `accept` fails. -/
inductive AcceptError where
  | interrupted
  | badFd
  | other

inductive MainMove where
  | checkStop
  /-- `accept` returns a number, and `thread_pool_submit` is called. -/
  | accept (number : Int32)
  | acceptFails (error : AcceptError)
  | submitReturns
  | closeRefused
  | closeListening
  | shutdown
  | join
  | destroy

/-- A step of a handler on the engine. -/
inductive EngineMove where
  | request (env : Environment)
  | acquire
  | work
  | release (heap : Heap)

inductive ClientMove where
  /-- The worker calls `handle_client`. -/
  | begin
  | recv (answer : Recv)
  /-- `http_read_request` has returned. -/
  | route (heap : Heap)
  | engine (move : EngineMove)
  | respond
  /-- One `send` of `http_send_json_with_thread`. -/
  | send
  | sent
  | close
  /-- `handle_client` returns. -/
  | returns

inductive ServerMove (threadCount : Nat) where
  /-- `handle_signal`. -/
  | signal
  | openOther (number : Int32)
  | closeOther (number : Int32)
  /-- A thread goes on in the thread pool. -/
  | pool (move : Monitor.Move (PoolThread threadCount Unit) PoolCond)
  | main (move : MainMove)
  | client (index : Fin threadCount) (move : ClientMove)

variable {threadCount : Nat}

namespace ServerMove

/-- The accept loop submits a connection when nobody sleeps and the queue has room. -/
def submission (number : Int32) : List (ServerMove threadCount) :=
  [.main .checkStop, .main (.accept number), .pool (.lock (.caller ())),
    .pool (.turn (.caller ()) fun _ => none), .main .submitReturns]

/-- A worker takes a connection off the queue and calls `handle_client`. -/
def pickup (index : Fin threadCount) : List (ServerMove threadCount) :=
  [.pool (.lock (.worker index)), .pool (.turn (.worker index) fun _ => none),
    .client index .begin]

end ServerMove

/-- `REQUEST_QUEUE_CAPACITY`. -/
def requestQueueCapacity : Nat := 128

/-- `server_run` at the accept loop: `opened` says which other numbers are in use. -/
def serverInit (threadCount : Nat) (fds : Nat → Socket) (listenFd : Int32)
    (opened : Int32 → Bool) (store : Store) : Option (ServerState threadCount) :=
  (threadPoolInit threadCount requestQueueCapacity fds).map fun pool =>
    { pool := pool
      main := .looping
      shouldStop := false
      listenFd := listenFd
      table := fun number =>
        if number = listenFd then some .listening
        else if opened number then some .other else none
      connections := 0
      clients := fun _ => none
      database := .initial store
      history := [] }

namespace ServerState

/-- Make a system call. -/
def call (state : ServerState threadCount) (party : Party threadCount) (syscall : Syscall)
    (socket : Socket) : ServerState threadCount :=
  { state with
    history := state.history ++ [.call party syscall socket (state.table socket.number)] }

/-- `close(client_fd)`. -/
def closeSocket (state : ServerState threadCount) (party : Party threadCount) (socket : Socket) :
    ServerState threadCount :=
  { state.call party .close socket with
    table := Function.update state.table socket.number none }

/-- The worker's call of `handle_client` goes on. -/
def setStage (state : ServerState threadCount) (index : Fin threadCount) (socket : Socket)
    (stage : ClientStage) : ServerState threadCount :=
  { state with
    clients := Function.update state.clients index (some { socket := socket, stage := stage }) }

/-- The result of the engine call that was completed last. -/
def lastResult (state : ServerState threadCount) : DbResult :=
  match state.database.log.getLast? with
  | some entry => entry.result.1
  | none => makeErrorResult []

/-- A step of the accept loop, or of what follows it. -/
def performMain (state : ServerState threadCount) : MainMove → Option (ServerState threadCount)
  | .checkStop =>
      match state.main with
      | .looping => some { state with main := if state.shouldStop then .leaving else .accepting }
      | _ => none
  | .accept number =>
      match state.main with
      | .accepting =>
          if 0 ≤ number ∧ state.table number = none then
            let socket : Socket := { number := number, connection := state.connections }
            (state.pool.perform (.submit () socket)).map fun pool =>
              { state with
                pool := pool
                main := .submitting socket
                table := Function.update state.table number (some (.connection state.connections))
                connections := state.connections + 1
                history := state.history ++ [.accepted socket] }
          else none
      | _ => none
  | .acceptFails error =>
      match state.main with
      | .accepting =>
          some
            { state with
              main :=
                match error with
                | .interrupted => .looping
                | .badFd => .leaving
                | .other => if state.shouldStop then .leaving else .looping }
      | _ => none
  | .submitReturns =>
      match state.main, state.pool.monitor.activity (.caller ()) with
      | .submitting _, .outside (some (.accepted _)) => some { state with main := .looping }
      | .submitting socket, .outside (some .refused) => some { state with main := .refused socket }
      | _, _ => none
  | .closeRefused =>
      match state.main with
      | .refused socket => some { state.closeSocket .acceptLoop socket with main := .leaving }
      | _ => none
  | .closeListening =>
      match state.main with
      | .leaving =>
          some
            { state with
              main := .stopping
              table := Function.update state.table state.listenFd none }
      | _ => none
  | .shutdown =>
      match state.main with
      | .stopping =>
          (state.pool.perform .shutdown).map fun pool =>
            { state with pool := pool, main := .joining }
      | _ => none
  | .join =>
      match state.main with
      | .joining =>
          (state.pool.perform .join).map fun pool =>
            { state with pool := pool, main := .destroying }
      | _ => none
  | .destroy =>
      match state.main with
      | .destroying =>
          some { state with main := .returned, history := state.history ++ [.destroyed] }
      | _ => none

/-- The step of the engine for this statement. -/
def engineMove (index : Fin threadCount) (stmt : SqlStatement) :
    EngineMove → Move (Fin threadCount) (Call × Environment)
  | .request env => .request index (statementCall stmt, env)
  | .acquire => .acquire index
  | .work => .work index
  | .release _ => .release index

/-- A step of `execute_statement`; when the call is completed, the response follows. -/
def performEngine (state : ServerState threadCount) (index : Fin threadCount) (socket : Socket)
    (stmt : SqlStatement) (move : EngineMove) : Option (ServerState threadCount) :=
  (state.database.perform lockProtocol (engineMove index stmt move)).map fun database =>
    let next : ServerState threadCount :=
      { state with database := database, history := state.history ++ [.database index] }
    match move with
    | .release heap => next.setStage index socket (.responding (answerQuery next.lastResult heap))
    | _ => next

/-- A step of a worker in `handle_client`. -/
def performClient (state : ServerState threadCount) (index : Fin threadCount) :
    ClientMove → Option (ServerState threadCount)
  | .begin =>
      (state.pool.perform (.handle index)).bind fun pool =>
        (pool.handling index).map fun socket =>
          { state with pool := pool }.setStage index socket (.reading (.headers []))
  | .recv answer =>
      match state.clients index with
      | some { socket := socket, stage := .reading reading } =>
          match reading with
          | .returned _ => none
          | reading =>
              some ((state.call (.handler index) .recv socket).setStage index socket
                (.reading (reading.receive answer)))
      | _ => none
  | .route heap =>
      match state.clients index with
      | some { socket := socket, stage := .reading (.returned result) } =>
          some (state.setStage index socket (handleRequest result heap))
      | _ => none
  | .engine move =>
      match state.clients index with
      | some { socket := socket, stage := .executing stmt } =>
          state.performEngine index socket stmt move
      | _ => none
  | .respond =>
      match state.clients index with
      | some { socket := socket, stage := .responding _ } =>
          let next : ServerState threadCount :=
            { state with history := state.history ++ [.response index socket] }
          some (next.setStage index socket .sending)
      | _ => none
  | .send =>
      match state.clients index with
      | some { socket := socket, stage := .sending } =>
          some (state.call (.handler index) .send socket)
      | _ => none
  | .sent =>
      match state.clients index with
      | some { socket := socket, stage := .sending } =>
          some (state.setStage index socket .closing)
      | _ => none
  | .close =>
      match state.clients index with
      | some { socket := socket, stage := .closing } =>
          some ((state.closeSocket (.handler index) socket).setStage index socket .closed)
      | _ => none
  | .returns =>
      match state.clients index with
      | some { socket := _, stage := .closed } =>
          (state.pool.perform (.handlerReturns index)).map fun pool =>
            { state with pool := pool, clients := Function.update state.clients index none }
      | _ => none

/-- One move, if it is possible. -/
def perform (state : ServerState threadCount) :
    ServerMove threadCount → Option (ServerState threadCount)
  | .signal => some { state with shouldStop := true }
  | .openOther number =>
      if state.table number = none then
        some { state with table := Function.update state.table number (some .other) }
      else none
  | .closeOther number =>
      if state.table number = some .other then
        some { state with table := Function.update state.table number none }
      else none
  | .pool move =>
      (state.pool.perform (.schedule move)).map fun pool => { state with pool := pool }
  | .main move => state.performMain move
  | .client index move => state.performClient index move

end ServerState

end MiniDbms.Server
