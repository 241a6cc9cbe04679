import Mathlib.Data.List.Range
import MiniDbms.Server.QueueOrder
import MiniDbms.Server.ServerRun

/-! # Connections in the parts of the server

What the handlers, the accept loop, the kernel's table of descriptors and the shutdown
each preserve, as far as it concerns connections: `MiniDbms.Server.Handling`,
`MiniDbms.Server.Accepting`, `MiniDbms.Server.Kernel` and `MiniDbms.Server.Stopping`.
-/

namespace MiniDbms.Server

open Foundation Util Db Sql Http

variable {threadCount : Nat}

namespace Event

def acceptance : Event threadCount → Option Socket
  | .accepted socket => some socket
  | _ => none

def answer : Event threadCount → Option (Fin threadCount × Socket)
  | .response index socket => some (index, socket)
  | _ => none

/-- The connection whose number a system call is made on. -/
def uses : Event threadCount → Option Socket
  | .call _ _ socket _ => some socket
  | _ => none

def closes : Event threadCount → Option Socket
  | .call _ .close socket _ => some socket
  | _ => none

def handlerCloses : Event threadCount → Option (Fin threadCount × Socket)
  | .call (.handler index) .close socket _ => some (index, socket)
  | _ => none

def acceptLoopCloses : Event threadCount → Option Socket
  | .call .acceptLoop .close socket _ => some socket
  | _ => none

end Event

section History

variable (history : List (Event threadCount))

/-- The connections accepted so far. -/
def accepted : List Socket := history.filterMap Event.acceptance

/-- The responses attempted so far, and by whom. -/
def answered : List (Fin threadCount × Socket) := history.filterMap Event.answer

def closed : List Socket := history.filterMap Event.closes

def closedByHandlers : List (Fin threadCount × Socket) := history.filterMap Event.handlerCloses

def closedByAcceptLoop : List Socket := history.filterMap Event.acceptLoopCloses

/-- Every `close` is one of a handler or of the accept loop. -/
theorem closed_perm :
    (closed history).Perm
      ((closedByHandlers history).map Prod.snd ++ closedByAcceptLoop history) := by
  induction history with
  | nil => exact .nil
  | cons event history ih =>
      cases event with
      | accepted | response | database | destroyed => exact ih
      | call party syscall socket target =>
          cases syscall with
          | recv | send => cases party <;> exact ih
          | close =>
              cases party with
              | handler index => exact ih.cons socket
              | acceptLoop => exact (ih.cons socket).trans List.perm_middle.symm

end History

theorem comp_update_of_eq {Index Value Result : Type} [DecidableEq Index]
    {view : Value → Result} {values : Index → Value} {index : Index} {value : Value}
    (same : view value = view (values index)) :
    view ∘ Function.update values index value = view ∘ values := by
  rw [Function.comp_update, same]
  exact Function.update_eq_self index (view ∘ values)

/-- The connection of a handler that has not made its response. -/
def unanswered : Option Client → Option Socket
  | some client => if client.stage.answered then none else some client.socket
  | none => none

/-- The connection of a handler that has not closed it. -/
def unclosed : Option Client → Option Socket
  | some client => if client.stage.isOpen then some client.socket else none
  | none => none

/-- The workers answer and close the connections they handle. -/
structure Handling (pool : PoolState threadCount Unit Socket)
    (clients : Fin threadCount → Option Client) (history : List (Event threadCount)) : Prop where
  ordered : pool.Ordered requestQueueCapacity
  serves : Option.map Client.socket ∘ clients = pool.handling
  answers : Follows pool.handled (answered history) (unanswered ∘ clients)
  closes : Follows pool.handled (closedByHandlers history) (unclosed ∘ clients)

namespace Handling

variable {pool next : PoolState threadCount Unit Socket}
  {clients : Fin threadCount → Option Client} {history : List (Event threadCount)}
  {index : Fin threadCount} {socket : Socket} {stage : ClientStage}

/-- Something else happens. -/
theorem note (handling : Handling pool clients history) {event : Event threadCount}
    (answer : event.answer = none) (close : event.handlerCloses = none) :
    Handling pool clients (history ++ [event]) where
  ordered := handling.ordered
  serves := handling.serves
  answers := by
    rw [answered, List.filterMap_append, List.filterMap_cons_none answer, List.filterMap_nil,
      List.append_nil]
    exact handling.answers
  closes := by
    rw [closedByHandlers, List.filterMap_append, List.filterMap_cons_none close,
      List.filterMap_nil, List.append_nil]
    exact handling.closes

/-- The pool goes on without the handlers. -/
theorem poolMoves (handling : Handling pool clients history)
    (ordered : next.Ordered requestQueueCapacity) (same : next.handling = pool.handling)
    (calls : next.handled = pool.handled) : Handling next clients history where
  ordered := ordered
  serves := same ▸ handling.serves
  answers := calls ▸ handling.answers
  closes := calls ▸ handling.closes

/-- The stage of a handler is not its connection. -/
theorem serves_stage (handling : Handling pool clients history)
    (here : clients index = some { socket := socket, stage := stage }) (now : ClientStage) :
    Option.map Client.socket ∘
      Function.update clients index (some { socket := socket, stage := now }) = pool.handling := by
  rw [comp_update_of_eq (by rw [here]; rfl)]
  exact handling.serves

/-- A handler goes on, but neither responds nor closes. -/
theorem goesOn (handling : Handling pool clients history) {now : ClientStage}
    (here : clients index = some { socket := socket, stage := stage })
    (answers : now.answered = stage.answered) (opens : now.isOpen = stage.isOpen) :
    Handling pool (Function.update clients index (some { socket := socket, stage := now }))
      history where
  ordered := handling.ordered
  serves := handling.serves_stage here _
  answers := by
    rw [comp_update_of_eq (by rw [here]; simp only [unanswered, answers])]
    exact handling.answers
  closes := by
    rw [comp_update_of_eq (by rw [here]; simp only [unclosed, opens])]
    exact handling.closes

/-- A worker calls `handle_client`. -/
theorem begin (handling : Handling pool clients history)
    (ordered : next.Ordered requestQueueCapacity) (idle : pool.handling index = none)
    (called : next.handling = Function.update pool.handling index (some socket))
    (calls : next.handled = pool.handled ++ [(index, socket)]) (reading : Reading) :
    Handling next (Function.update clients index
      (some { socket := socket, stage := .reading reading })) history := by
  have nobody : clients index = none := by
    rw [← handling.serves] at idle
    exact Option.map_eq_none_iff.mp idle
  refine ⟨ordered, ?_, ?_, ?_⟩
  · rw [called, Function.comp_update, handling.serves]
    rfl
  · rw [calls, Function.comp_update]
    exact handling.answers.start (by rw [Function.comp_apply, nobody]; rfl) socket
  · rw [calls, Function.comp_update]
    exact handling.closes.start (by rw [Function.comp_apply, nobody]; rfl) socket

/-- A handler makes its response. -/
theorem respond (handling : Handling pool clients history) {response : HttpResponse}
    (here : clients index = some { socket := socket, stage := .responding response }) :
    Handling pool (Function.update clients index (some { socket := socket, stage := .sending }))
      (history ++ [.response index socket]) where
  ordered := handling.ordered
  serves := handling.serves_stage here _
  answers := by
    rw [answered, List.filterMap_append, Function.comp_update]
    exact handling.answers.finish (by rw [Function.comp_apply, here]; rfl)
  closes := by
    rw [closedByHandlers, List.filterMap_append, comp_update_of_eq (by rw [here]; rfl)]
    exact (List.append_nil _).symm ▸ handling.closes

/-- A handler closes its connection. -/
theorem close (handling : Handling pool clients history) {target : Option Descriptor}
    (here : clients index = some { socket := socket, stage := .closing }) :
    Handling pool (Function.update clients index (some { socket := socket, stage := .closed }))
      (history ++ [.call (.handler index) .close socket target]) where
  ordered := handling.ordered
  serves := handling.serves_stage here _
  answers := by
    rw [answered, List.filterMap_append, comp_update_of_eq (by rw [here]; rfl)]
    exact (List.append_nil _).symm ▸ handling.answers
  closes := by
    rw [closedByHandlers, List.filterMap_append, Function.comp_update]
    exact handling.closes.finish (by rw [Function.comp_apply, here]; rfl)

/-- `handle_client` returns. -/
theorem returns (handling : Handling pool clients history)
    (ordered : next.Ordered requestQueueCapacity)
    (here : clients index = some { socket := socket, stage := .closed })
    (left : next.handling = Function.update pool.handling index none)
    (calls : next.handled = pool.handled) :
    Handling next (Function.update clients index none) history where
  ordered := ordered
  serves := by
    rw [left, Function.comp_update, handling.serves]
    rfl
  answers := by
    rw [calls, comp_update_of_eq (by rw [here]; rfl)]
    exact handling.answers
  closes := by
    rw [calls, comp_update_of_eq (by rw [here]; rfl)]
    exact handling.closes

/-- A handler at work keeps its worker out of the pool's monitor. -/
theorem not_exited (handling : Handling pool clients history) {client : Client}
    (here : clients index = some client) : ¬ pool.Exited index := by
  intro exited
  have called : pool.handling index = some client.socket := by
    rw [← handling.serves, Function.comp_apply, here]
    rfl
  rw [PoolState.Exited, handling.ordered.handles.handling _ _ called] at exited
  cases exited

end Handling

/-- What the accept loop's thread does in the pool, when the accept loop is at this
place. -/
def Calls : MainStage → Monitor.Activity (PoolOp Socket) PoolCond (PoolResult Socket) → Prop
  | .submitting socket, activity =>
      activity.op = some (.submit socket) ∨ activity = .outside (some .refused) ∨
        activity = .outside (some (.accepted socket))
  | _, activity => activity.op = none

/-- The connection that the accept loop has accepted but not handed over. -/
def held (main : MainStage)
    (activity : Monitor.Activity (PoolOp Socket) PoolCond (PoolResult Socket)) : List Socket :=
  match main with
  | .submitting socket =>
      match activity with
      | .outside (some (.accepted _)) => []
      | _ => [socket]
  | .refused socket => [socket]
  | _ => []

/-- A caller holds its socket while it calls. -/
theorem held_of_calling {socket : Socket} {op : PoolOp Socket}
    {activity : Monitor.Activity (PoolOp Socket) PoolCond (PoolResult Socket)}
    (calling : activity.op = some op) : held (.submitting socket) activity = [socket] := by
  cases activity with
  | outside last => cases calling
  | locking | inside | asleep => rfl

/-- An accepted connection is in the pool, with the accept loop or closed by it. -/
structure Accepting (submitted : List Socket)
    (activity : Monitor.Activity (PoolOp Socket) PoolCond (PoolResult Socket)) (main : MainStage)
    (connections : Nat) (history : List (Event threadCount)) : Prop where
  ids : (accepted history).map Socket.connection = List.range connections
  accounts : (accepted history).Perm
    (submitted ++ (held main activity ++ closedByAcceptLoop history))
  calls : Calls main activity

namespace Accepting

variable {submitted : List Socket} {main now : MainStage} {connections : Nat}
  {activity : Monitor.Activity (PoolOp Socket) PoolCond (PoolResult Socket)}
  {history : List (Event threadCount)} {socket : Socket}

theorem nodup (accepting : Accepting submitted activity main connections history) :
    (accepted history).Nodup :=
  List.Nodup.of_map Socket.connection (accepting.ids ▸ List.nodup_range)

/-- Something else happens. -/
theorem note (accepting : Accepting submitted activity main connections history)
    {event : Event threadCount} (acceptance : event.acceptance = none)
    (close : event.acceptLoopCloses = none) :
    Accepting submitted activity main connections (history ++ [event]) := by
  have same : accepted (history ++ [event]) = accepted history := by
    rw [accepted, List.filterMap_append, List.filterMap_cons_none acceptance, List.filterMap_nil,
      List.append_nil]
    rfl
  have closes : closedByAcceptLoop (history ++ [event]) = closedByAcceptLoop history := by
    rw [closedByAcceptLoop, List.filterMap_append, List.filterMap_cons_none close,
      List.filterMap_nil, List.append_nil]
    rfl
  exact ⟨same ▸ accepting.ids, same ▸ closes ▸ accepting.accounts, accepting.calls⟩

/-- The accept loop goes on. -/
theorem goesOn (accepting : Accepting submitted activity main connections history)
    (same : held now activity = held main activity) (calls : Calls now activity) :
    Accepting submitted activity now connections history where
  ids := accepting.ids
  accounts := same ▸ accepting.accounts
  calls := calls

/-- A connection is accepted and `thread_pool_submit` called. -/
theorem accept (accepting : Accepting submitted activity .accepting connections history)
    (number : Int32) :
    let socket : Socket := { number := number, connection := connections }
    Accepting submitted (.locking (.submit socket)) (.submitting socket) (connections + 1)
      (history ++ [.accepted socket]) where
  ids := by
    rw [accepted, List.filterMap_append, List.map_append, List.range_succ]
    exact congrArg (· ++ [connections]) accepting.ids
  accounts := by
    rw [accepted, List.filterMap_append, closedByAcceptLoop, List.filterMap_append]
    refine (accepting.accounts.append_right _).trans ?_
    rw [List.append_assoc]
    exact (List.append_nil (closedByAcceptLoop history)).symm ▸
      List.perm_append_comm.append_left submitted
  calls := .inl rfl

/-- The accept loop closes a connection that was refused. -/
theorem close (accepting : Accepting submitted activity (.refused socket) connections history)
    {target : Option Descriptor} :
    Accepting submitted activity .leaving connections
      (history ++ [.call .acceptLoop .close socket target]) where
  ids := by
    rw [accepted, List.filterMap_append]
    exact (List.append_nil _).symm ▸ accepting.ids
  accounts := by
    rw [accepted, List.filterMap_append, closedByAcceptLoop, List.filterMap_append]
    refine (List.append_nil _).symm ▸ accepting.accounts.trans ?_
    exact List.perm_append_comm.append_left submitted
  calls := accepting.calls

/-- `thread_pool_submit` takes the connection. -/
theorem submit (accepting : Accepting submitted activity (.submitting socket) connections history)
    (calling : activity.op = some (.submit socket)) :
    Accepting (submitted ++ [socket]) (.outside (some (.accepted socket))) (.submitting socket)
      connections history where
  ids := accepting.ids
  accounts := by
    have accounts := accepting.accounts
    rw [held_of_calling calling] at accounts
    rw [List.append_assoc]
    exact accounts
  calls := .inr (.inr rfl)

end Accepting

/-- What a step in the pool's monitor means to the one thread that submits, and which
connection the queue takes in it. -/
inductive Submission
    (before after : Monitor.Activity (PoolOp Socket) PoolCond (PoolResult Socket)) :
    List Socket → Prop
  | unchanged (same : after = before) : Submission before after []
  | goesOn {op : PoolOp Socket} (calling : before.op = some op) (still : after.op = some op) :
      Submission before after []
  | refused {socket : Socket} (calling : before.op = some (.submit socket))
      (returned : after = .outside (some .refused)) : Submission before after []
  | accepted {socket : Socket} (calling : before.op = some (.submit socket))
      (returned : after = .outside (some (.accepted socket))) : Submission before after [socket]

/-- A step of the pool is told by what the caller submits. -/
theorem submission_of_step {config next : PoolMonitor threadCount Unit Socket}
    (consistent : config.Consistent Assigned)
    (step : Monitor.Step (poolMonitor Socket) (fun _ _ => False) config next) :
    ∃ taken, next.log.filterMap acceptance = config.log.filterMap acceptance ++ taken ∧
      Submission (config.activity (.caller ())) (next.activity (.caller ())) taken := by
  have update : ∀ {thread : PoolThread threadCount Unit} {activity op},
      (config.activity thread).op = some op → activity.op = some op →
      Submission (config.activity (.caller ()))
        (Function.update config.activity thread activity (.caller ())) [] := by
    intro thread activity op before after
    by_cases here : PoolThread.caller () = thread
    · subst here
      rw [Function.update_self]
      exact .goesOn before after
    · exact .unchanged (Function.update_of_ne here _ _)
  have quiet := (List.append_nil (config.log.filterMap acceptance)).symm
  cases step with
  | enter idle mine => exact mine.elim
  | lock locking free => exact ⟨[], quiet, update (by rw [locking]; rfl) rfl⟩
  | wait inside waits => exact ⟨[], quiet, update (by rw [inside]; rfl) rfl⟩
  | wake asleep waits => exact ⟨[], quiet, .unchanged rfl⟩
  | resume asleep free woken => exact ⟨[], quiet, update (by rw [asleep]; rfl) rfl⟩
  | @leave thread op shared notices result chosen inside leaves allowed =>
      have mine := consistent.mine thread op (by rw [inside]; rfl)
      have others : PoolThread.caller () ≠ thread → Function.update config.activity thread
          (.outside (some result)) (.caller ()) = config.activity (.caller ()) := fun different =>
        Function.update_of_ne different _ _
      rw [List.filterMap_append]
      cases thread with
      | worker index =>
          cases op with
          | submit | shutdown => exact mine.elim
          | work =>
              refine ⟨[], congrArg _ ?_, .unchanged (others nofun)⟩
              rcases ThreadPool.leave_of_workerLoop leaves with
                ⟨_, _, _, _, rfl⟩ | ⟨_, _, _, rfl⟩ <;> rfl
      | closer =>
          cases op with
          | work | submit => exact mine.elim
          | shutdown =>
              refine ⟨[], congrArg _ ?_, .unchanged (others nofun)⟩
              rw [(ThreadPool.leave_of_threadPoolShutdown leaves).2.2]
              rfl
      | caller caller =>
          cases op with
          | work | shutdown => exact mine.elim
          | submit socket =>
              have calling : (config.activity (.caller ())).op = some (.submit socket) := by
                rw [inside]
                rfl
              refine ⟨_, rfl, ?_⟩
              change Submission _ (Function.update config.activity (.caller ())
                (.outside (some result)) (.caller ())) _
              rw [Function.update_self]
              rcases ThreadPool.leave_of_threadPoolSubmit leaves with
                ⟨_, _, _, rfl⟩ | ⟨_, _, _, _, rfl⟩
              · exact .refused calling rfl
              · exact .accepted calling rfl

/-- The pool goes on. -/
theorem Accepting.schedule {submitted taken : List Socket} {main : MainStage} {connections : Nat}
    {before after : Monitor.Activity (PoolOp Socket) PoolCond (PoolResult Socket)}
    {history : List (Event threadCount)}
    (accepting : Accepting submitted before main connections history)
    (submission : Submission before after taken) :
    Accepting (submitted ++ taken) after main connections history := by
  have submitting : ∀ op, before.op = some op →
      ∃ socket, main = .submitting socket ∧ op = .submit socket := by
    intro op calling
    have calls := accepting.calls
    cases main with
    | submitting socket =>
        rcases calls with same | rfl | rfl
        · exact ⟨socket, rfl, Option.some.inj (calling.symm.trans same)⟩
        · cases calling
        · cases calling
    | looping | accepting | refused | leaving | stopping | joining | destroying | returned =>
        cases calling.symm.trans calls
  cases submission with
  | unchanged same =>
      rw [same, List.append_nil]
      exact accepting
  | goesOn calling still =>
      obtain ⟨socket, rfl, rfl⟩ := submitting _ calling
      have accounts := accepting.accounts
      rw [held_of_calling calling, ← held_of_calling still] at accounts
      rw [List.append_nil]
      exact ⟨accepting.ids, accounts, .inl still⟩
  | refused calling returned =>
      obtain ⟨socket, rfl, same⟩ := submitting _ calling
      rw [List.append_nil, returned]
      have accounts := accepting.accounts
      rw [held_of_calling calling] at accounts
      exact ⟨accepting.ids, accounts, .inr (.inl rfl)⟩
  | accepted calling returned =>
      obtain ⟨socket, rfl, same⟩ := submitting _ calling
      cases same
      rw [returned]
      exact accepting.submit calling

/-- The number of the listening socket is still in use. -/
def MainStage.listens : MainStage → Bool
  | .looping => true
  | .accepting => true
  | .submitting _ => true
  | .refused _ => true
  | .leaving => true
  | .stopping => false
  | .joining => false
  | .destroying => false
  | .returned => false

/-- An open connection has its number, and every system call was made before the
connection was closed, on what it was meant for. -/
structure Kernel (table : Int32 → Option Descriptor) (listenFd : Int32) (main : MainStage)
    (history : List (Event threadCount)) : Prop where
  opened : ∀ socket ∈ accepted history, socket ∉ closed history →
    table socket.number = some (.connection socket.connection)
  listening : main.listens = true → table listenFd = some .listening
  targets : ∀ party syscall socket target, .call party syscall socket target ∈ history →
    target = some (.connection socket.connection)
  silent : history.Pairwise fun earlier later =>
    ∀ socket, earlier.closes = some socket → later.uses ≠ some socket

namespace Kernel

variable {table : Int32 → Option Descriptor} {listenFd number : Int32} {main now : MainStage}
  {history : List (Event threadCount)} {socket : Socket}

/-- The accept loop goes on. -/
theorem goesOn (kernel : Kernel table listenFd main history)
    (listens : now.listens = true → main.listens = true) : Kernel table listenFd now history :=
  ⟨kernel.opened, fun still => kernel.listening (listens still), kernel.targets, kernel.silent⟩

/-- A number keeps its meaning when one with another meaning changes. -/
theorem keeps {changed : Int32} {descriptor : Descriptor}
    (mine : table number = some descriptor) (different : table changed ≠ some descriptor)
    (now : Option Descriptor) : Function.update table changed now number = some descriptor := by
  rw [Function.update_of_ne, mine]
  rintro rfl
  exact different mine

/-- A number that is not in use for the server changes its meaning. -/
theorem other (kernel : Kernel table listenFd main history)
    (unused : table number = none ∨ table number = some .other) (now : Option Descriptor) :
    Kernel (Function.update table number now) listenFd main history := by
  have different : ∀ descriptor ≠ .other, table number ≠ some descriptor := by
    intro descriptor forServer same
    rcases unused with free | other
    · exact Option.some_ne_none descriptor (same.symm.trans free)
    · exact forServer (Option.some.inj (same.symm.trans other))
  refine ⟨?_, ?_, kernel.targets, kernel.silent⟩
  · intro socket member notClosed
    apply keeps (kernel.opened socket member notClosed)
    apply different
    intro impossible
    cases impossible
  · intro listens
    apply keeps (kernel.listening listens)
    apply different
    intro impossible
    cases impossible

/-- The listening socket is closed. -/
theorem closeListening (kernel : Kernel table listenFd .leaving history) :
    Kernel (Function.update table listenFd none) listenFd .stopping history where
  opened := by
    intro socket member notClosed
    apply keeps (kernel.opened socket member notClosed)
    rw [kernel.listening rfl]
    exact fun impossible => by cases impossible
  listening := nofun
  targets := kernel.targets
  silent := kernel.silent

/-- Something is recorded, and the table may change with it. -/
theorem record (kernel : Kernel table listenFd main history) {event : Event threadCount}
    {changed : Int32 → Option Descriptor}
    (keeps : ∀ socket ∈ accepted history,
      table socket.number = some (.connection socket.connection) → event.closes ≠ some socket →
        changed socket.number = some (.connection socket.connection))
    (opens : ∀ socket, event.acceptance = some socket →
      changed socket.number = some (.connection socket.connection))
    (listening : main.listens = true → table listenFd = some .listening → now.listens = true →
      changed listenFd = some .listening)
    (listens : now.listens = true → main.listens = true)
    (target : ∀ party syscall socket target, event = .call party syscall socket target →
      target = some (.connection socket.connection))
    (silent : ∀ socket, event.uses = some socket → socket ∉ closed history) :
    Kernel changed listenFd now (history ++ [event]) where
  opened := by
    intro socket member notClosed
    rw [closed, List.filterMap_append, List.mem_append, not_or] at notClosed
    rw [accepted, List.filterMap_append, List.mem_append] at member
    rcases member with before | recorded
    · refine keeps socket before (kernel.opened socket before notClosed.1) fun closes => ?_
      refine notClosed.2 (List.mem_filterMap.mpr ⟨event, List.mem_singleton_self event, closes⟩)
    · obtain ⟨_, same, acceptance⟩ := List.mem_filterMap.mp recorded
      rw [List.mem_singleton.mp same] at acceptance
      exact opens socket acceptance
  listening := fun still => listening (listens still) (kernel.listening (listens still)) still
  targets := by
    intro party syscall socket target' member
    rcases List.mem_append.mp member with before | recorded
    · exact kernel.targets party syscall socket target' before
    · exact target party syscall socket target' (List.mem_singleton.mp recorded).symm
  silent := by
    refine List.pairwise_append.mpr ⟨kernel.silent, List.pairwise_singleton _ event, ?_⟩
    intro earlier member later recorded socket closes uses
    rw [List.mem_singleton.mp recorded] at uses
    exact silent socket uses (List.mem_filterMap.mpr ⟨earlier, member, closes⟩)

/-- Something is recorded that is neither a system call nor a new connection. -/
theorem note (kernel : Kernel table listenFd main history) {event : Event threadCount}
    (acceptance : event.acceptance = none) (uses : event.uses = none)
    (listens : now.listens = true → main.listens = true) :
    Kernel table listenFd now (history ++ [event]) := by
  refine kernel.record (fun _ _ mine _ => mine) ?_ (fun _ mine _ => mine) listens ?_ ?_
  · intro socket accepts
    cases acceptance.symm.trans accepts
  · rintro party syscall socket target rfl
    cases uses
  · intro socket same
    cases uses.symm.trans same

/-- The owner of an open connection receives or sends. -/
theorem call (kernel : Kernel table listenFd main history) {party : Party threadCount}
    {syscall : Syscall} (member : socket ∈ accepted history)
    (notClosed : socket ∉ closed history) :
    Kernel table listenFd main
      (history ++ [.call party syscall socket (table socket.number)]) := by
  refine kernel.record (fun _ _ mine _ => mine) nofun (fun _ mine _ => mine) id ?_ ?_
  · rintro _ _ _ _ ⟨⟩
    exact kernel.opened socket member notClosed
  · rintro _ ⟨⟩
    exact notClosed

/-- The owner of an open connection closes it. -/
theorem close (kernel : Kernel table listenFd main history) {party : Party threadCount}
    (member : socket ∈ accepted history) (notClosed : socket ∉ closed history)
    (listens : now.listens = true → main.listens = true) :
    Kernel (Function.update table socket.number none) listenFd now
      (history ++ [.call party .close socket (table socket.number)]) := by
  have mine := kernel.opened socket member notClosed
  refine kernel.record ?_ nofun ?_ listens ?_ ?_
  · intro other _ theirs notThis
    rw [Function.update_of_ne, theirs]
    -- With the same number it would be the same connection.
    intro same
    rw [same, mine] at theirs
    apply notThis
    cases socket
    cases other
    cases theirs
    cases same
    rfl
  · intro _ listening _
    apply keeps listening
    rw [mine]
    exact fun impossible => by cases impossible
  · rintro _ _ _ _ ⟨⟩
    exact mine
  · rintro _ ⟨⟩
    exact notClosed

/-- The kernel accepts a connection and gives it a number that is not in use. -/
theorem accept (kernel : Kernel table listenFd main history) (free : table number = none)
    (connection : Nat) (listens : now.listens = true → main.listens = true) :
    Kernel (Function.update table number (some (.connection connection))) listenFd now
      (history ++ [.accepted { number := number, connection := connection }]) := by
  have elsewhere : ∀ descriptor, table number ≠ some descriptor := by
    rw [free]
    exact fun _ => (Option.some_ne_none _).symm
  refine kernel.record (fun _ _ mine _ => keeps mine (elsewhere _) _) ?_
    (fun _ mine _ => keeps mine (elsewhere _) _) listens nofun nofun
  rintro _ ⟨⟩
  exact Function.update_self _ _ _

end Kernel

/-- `thread_pool_shutdown` has joined the workers. -/
def MainStage.joined : MainStage → Bool
  | .looping => false
  | .accepting => false
  | .submitting _ => false
  | .refused _ => false
  | .leaving => false
  | .stopping => false
  | .joining => false
  | .destroying => true
  | .returned => true

/-- The engine is destroyed when no handler is left. -/
structure Stopping (pool : PoolState threadCount Unit Socket) (main : MainStage)
    (history : List (Event threadCount)) : Prop where
  exited : main.joined = true → ∀ index, pool.Exited index
  destroyed : .destroyed ∈ history → main = .returned
  last : history.Pairwise fun earlier later =>
    earlier = .destroyed → ∀ index, later ≠ .database index

namespace Stopping

variable {pool next : PoolState threadCount Unit Socket} {main now : MainStage}
  {history : List (Event threadCount)}

/-- The accept loop goes on. -/
theorem goesOn (stopping : Stopping pool main history) (running : main.joined = false)
    (still : now.joined = false) : Stopping pool now history where
  exited := fun joined => by rw [still] at joined; cases joined
  destroyed := fun member => by rw [stopping.destroyed member] at running; cases running
  last := stopping.last

/-- The workers have been joined. -/
theorem join (stopping : Stopping pool .joining history) (exited : ∀ index, pool.Exited index) :
    Stopping { pool with joined := true } .destroying history where
  exited := fun _ => exited
  destroyed := fun member => by cases stopping.destroyed member
  last := stopping.last

/-- The pool goes on. -/
theorem poolMoves (stopping : Stopping pool main history)
    (exited : main.joined = true → ∀ index, pool.Exited index → next.Exited index) :
    Stopping next main history where
  exited := fun joined index => exited joined index (stopping.exited joined index)
  destroyed := stopping.destroyed
  last := stopping.last

/-- Something other than `db_destroy` is recorded. -/
theorem note (stopping : Stopping pool main history) {event : Event threadCount}
    (notDestroyed : event ≠ .destroyed)
    (running : ∀ index, event = .database index → main.joined = false) :
    Stopping pool main (history ++ [event]) where
  exited := stopping.exited
  destroyed := by
    intro member
    rcases List.mem_append.mp member with before | recorded
    · exact stopping.destroyed before
    · exact absurd (List.mem_singleton.mp recorded).symm notDestroyed
  last := by
    refine List.pairwise_append.mpr ⟨stopping.last, List.pairwise_singleton _ event, ?_⟩
    rintro _ member later recorded rfl index same
    have joined := running index ((List.mem_singleton.mp recorded).symm.trans same)
    rw [stopping.destroyed member] at joined
    cases joined

/-- `db_destroy`. -/
theorem destroy (stopping : Stopping pool .destroying history) :
    Stopping pool .returned (history ++ [.destroyed]) where
  exited := fun _ => stopping.exited rfl
  destroyed := fun _ => rfl
  last := by
    refine List.pairwise_append.mpr ⟨stopping.last, List.pairwise_singleton _ _, ?_⟩
    intro earlier _ later recorded _ index
    rw [List.mem_singleton.mp recorded]
    exact nofun

end Stopping

end MiniDbms.Server
