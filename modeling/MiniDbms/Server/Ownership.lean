import MiniDbms.Server.Connections

/-! # Who owns a connection

An accepted connection belongs to the accept loop until `thread_pool_submit` returns 1,
then to the thread pool, and then to the worker whose handler is called with it. Only its
owner makes system calls on its number, and the owner's last one is `close`: whatever the
kernel does with the number afterwards, nobody uses it for the old connection again
(`MiniDbms.Server.connections_owned`).
-/

namespace MiniDbms.Server

open Foundation Util Db Sql Http

variable {threadCount : Nat}

/-- Every handled descriptor was accepted by the pool, and is handled once. -/
theorem PoolState.Ordered.handled_subperm {pool : PoolState threadCount Unit Socket}
    {capacity : Nat} (ordered : pool.Ordered capacity) :
    (pool.handled.map Prod.snd).Subperm pool.accepted := by
  obtain ⟨calls, perm, sublist⟩ := ordered.handles.follows.subperm
  rw [PoolState.accepted, ordered.order.order]
  exact ⟨calls.map Prod.snd, perm.map Prod.snd,
    (sublist.map Prod.snd).trans (List.sublist_append_left _ _)⟩

/-- What holds between any two steps of the server. -/
structure ServerState.Sound (state : ServerState threadCount) : Prop where
  handling : Handling state.pool state.clients state.history
  accepting : Accepting state.pool.accepted (state.pool.monitor.activity (.caller ())) state.main
    state.connections state.history
  kernel : Kernel state.table state.listenFd state.main state.history
  stopping : Stopping state.pool state.main state.history

namespace ServerState.Sound

variable {state next : ServerState threadCount} {index : Fin threadCount} {socket : Socket}

/-- One more `close` would still be one of an accepted connection. -/
theorem owned_of_more (sound : state.Sound)
    (more : (closed state.history ++ [socket]).Subperm (accepted state.history)) :
    socket ∈ accepted state.history ∧ socket ∉ closed state.history := by
  refine ⟨more.subset (List.mem_append_right _ (List.mem_singleton_self socket)), ?_⟩
  obtain ⟨sockets, perm, sublist⟩ := more
  have nodup := perm.nodup_iff.mp (sound.accepting.nodup.sublist sublist)
  exact fun member => (List.disjoint_of_nodup_append nodup) member (List.mem_singleton_self socket)

/-- Handlers close only what they were called with. -/
theorem closedByHandlers_subperm (sound : state.Sound)
    {entries : List (Fin threadCount × Socket)} (handled : entries.Subperm state.pool.handled) :
    (entries.map Prod.snd).Subperm state.pool.accepted := by
  obtain ⟨calls, perm, sublist⟩ := handled
  have mapped : (entries.map Prod.snd).Subperm (state.pool.handled.map Prod.snd) :=
    ⟨calls.map Prod.snd, perm.map Prod.snd, sublist.map Prod.snd⟩
  exact mapped.trans sound.handling.ordered.handled_subperm

/-- A handler that has not closed its connection owns it. -/
theorem owned_of_client (sound : state.Sound) {stage : ClientStage}
    (here : state.clients index = some { socket := socket, stage := stage })
    (opened : stage.isOpen = true) :
    socket ∈ accepted state.history ∧ socket ∉ closed state.history := by
  have busy : (unclosed ∘ state.clients) index = some socket := by
    rw [Function.comp_apply, here, unclosed, if_pos opened]
  have handled := sound.closedByHandlers_subperm (sound.handling.closes.busy_subperm busy)
  rw [List.map_append] at handled
  refine sound.owned_of_more ?_
  have split : (closed state.history ++ [socket]).Perm
      ((closedByHandlers state.history).map Prod.snd ++ [socket] ++
        closedByAcceptLoop state.history) := by
    refine ((closed_perm state.history).append_right _).trans ?_
    rw [List.append_assoc, List.append_assoc]
    exact List.perm_append_comm.append_left _
  refine split.subperm.trans (List.Subperm.trans ?_ sound.accepting.accounts.symm.subperm)
  exact handled.append (List.sublist_append_right _ _).subperm

/-- The accept loop owns a connection that was refused. -/
theorem owned_of_refused (sound : state.Sound) (main : state.main = .refused socket) :
    socket ∈ accepted state.history ∧ socket ∉ closed state.history := by
  have handled := sound.closedByHandlers_subperm sound.handling.closes.subperm
  have accounts := sound.accepting.accounts
  rw [main] at accounts
  refine sound.owned_of_more ?_
  have split : (closed state.history ++ [socket]).Perm
      ((closedByHandlers state.history).map Prod.snd ++
        ([socket] ++ closedByAcceptLoop state.history)) := by
    refine ((closed_perm state.history).append_right _).trans ?_
    rw [List.append_assoc]
    exact List.perm_append_comm.append_left _
  exact split.subperm.trans ((handled.append (List.Subperm.refl _)).trans accounts.symm.subperm)

/-- A handler's step before it responds, between that and `close`, or after that. -/
theorem goesOn (sound : state.Sound) {stage now : ClientStage}
    (here : state.clients index = some { socket := socket, stage := stage })
    (answers : now.answered = stage.answered) (opens : now.isOpen = stage.isOpen) :
    (state.setStage index socket now).Sound :=
  ⟨sound.handling.goesOn here answers opens, sound.accepting, sound.kernel, sound.stopping⟩

/-- A handler receives or sends. -/
theorem call (sound : state.Sound) {syscall : Syscall} (goesOn : syscall ≠ .close)
    (member : socket ∈ accepted state.history) (notClosed : socket ∉ closed state.history) :
    (state.call (.handler index) syscall socket).Sound where
  handling := by
    refine sound.handling.note rfl ?_
    cases syscall with
    | recv | send => rfl
    | close => exact absurd rfl goesOn
  accepting := sound.accepting.note rfl (by cases syscall <;> rfl)
  kernel := sound.kernel.call member notClosed
  stopping := sound.stopping.note nofun nofun

/-- A step on the engine keeps the server sound. -/
theorem performEngine (sound : state.Sound) {stmt : SqlStatement} {move : EngineMove}
    (here : state.clients index = some { socket := socket, stage := .executing stmt })
    (performed : state.performEngine index socket stmt move = some next) : next.Sound := by
  obtain ⟨database, _, same⟩ := Option.map_eq_some_iff.mp performed
  have running : state.main.joined = false := by
    by_contra joined
    exact sound.handling.not_exited here
      (sound.stopping.exited (Bool.eq_true_of_not_eq_false joined) index)
  have recorded : ServerState.Sound
      { state with database := database, history := state.history ++ [.database index] } :=
    ⟨sound.handling.note rfl rfl, sound.accepting.note rfl rfl,
      sound.kernel.note rfl rfl id, sound.stopping.note nofun fun _ _ => running⟩
  cases move with
  | request | acquire | work => exact same ▸ recorded
  | release heap => exact same ▸ recorded.goesOn here rfl rfl

/-- So does every step of a worker. -/
theorem performClient (sound : state.Sound) {move : ClientMove}
    (performed : state.performClient index move = some next) : next.Sound := by
  cases move with
  | begin =>
      obtain ⟨pool, handle, called⟩ := Option.bind_eq_some_iff.mp performed
      have ordered := sound.handling.ordered.perform handle
      obtain ⟨socket, _, idle, rfl⟩ := PoolState.handle_eq_some handle
      dsimp only at called
      rw [Function.update_self] at called
      cases called
      exact ⟨sound.handling.begin ordered idle rfl rfl _, sound.accepting, sound.kernel,
        sound.stopping.poolMoves fun _ _ => id⟩
  | recv answer =>
      simp only [ServerState.performClient] at performed
      split at performed
      · next socket reading here =>
          obtain ⟨member, notClosed⟩ := sound.owned_of_client here rfl
          have received : (state.call (.handler index) .recv socket).Sound :=
            sound.call (fun impossible => by cases impossible) member notClosed
          split at performed
          · cases performed
          · cases performed
            exact received.goesOn here rfl rfl
      · cases performed
  | route heap =>
      simp only [ServerState.performClient] at performed
      split at performed
      · next socket result here =>
          cases performed
          rcases handleRequest_stage result heap with ⟨response, stage⟩ | ⟨stmt, stage⟩
          · rw [stage]
            exact sound.goesOn here rfl rfl
          · rw [stage]
            exact sound.goesOn here rfl rfl
      · cases performed
  | engine move =>
      simp only [ServerState.performClient] at performed
      split at performed
      · next socket stmt here => exact sound.performEngine here performed
      · cases performed
  | respond =>
      simp only [ServerState.performClient] at performed
      split at performed
      · next socket response here =>
          cases performed
          exact ⟨sound.handling.respond here, sound.accepting.note rfl rfl,
            sound.kernel.note rfl rfl id, sound.stopping.note nofun nofun⟩
      · cases performed
  | send =>
      simp only [ServerState.performClient] at performed
      split at performed
      · next socket here =>
          cases performed
          obtain ⟨member, notClosed⟩ := sound.owned_of_client here rfl
          exact sound.call (fun impossible => by cases impossible) member notClosed
      · cases performed
  | sent =>
      simp only [ServerState.performClient] at performed
      split at performed
      · next socket here =>
          cases performed
          exact sound.goesOn here rfl rfl
      · cases performed
  | close =>
      simp only [ServerState.performClient] at performed
      split at performed
      · next socket here =>
          cases performed
          obtain ⟨member, notClosed⟩ := sound.owned_of_client here rfl
          exact ⟨sound.handling.close here, sound.accepting.note rfl rfl,
            sound.kernel.close member notClosed id, sound.stopping.note nofun nofun⟩
      · cases performed
  | returns =>
      simp only [ServerState.performClient] at performed
      split at performed
      · next socket here =>
          obtain ⟨pool, handlerReturns, rfl⟩ := Option.map_eq_some_iff.mp performed
          have ordered := sound.handling.ordered.perform handlerReturns
          obtain ⟨_, _, _, rfl⟩ := PoolState.handlerReturns_eq_some handlerReturns
          refine ⟨sound.handling.returns ordered here rfl rfl, ?_, sound.kernel, ?_⟩
          · dsimp only
            rw [Function.update_of_ne (fun impossible => by cases impossible)]
            exact sound.accepting
          · exact sound.stopping.poolMoves fun joined =>
              absurd (sound.stopping.exited joined index) (sound.handling.not_exited here)
      · cases performed

/-- So does a step of a thread in the pool. -/
theorem schedule (sound : state.Sound)
    {move : Monitor.Move (PoolThread threadCount Unit) PoolCond}
    (performed : state.perform (.pool move) = some next) : next.Sound := by
  obtain ⟨pool, moved, rfl⟩ := Option.map_eq_some_iff.mp performed
  have ordered := sound.handling.ordered.perform moved
  obtain ⟨monitor, stepped, rfl⟩ := Option.map_eq_some_iff.mp moved
  have step : Monitor.Step (poolMonitor Socket) (fun _ _ => False) state.pool.monitor monitor :=
    Monitor.step_of_perform stepped
  obtain ⟨taken, log, submission⟩ := submission_of_step sound.handling.ordered.consistent step
  refine ⟨sound.handling.poolMoves ordered rfl rfl, ?_, sound.kernel,
    sound.stopping.poolMoves fun _ index exited => step.stays_outside exited⟩
  rw [PoolState.accepted, log]
  exact sound.accepting.schedule submission

/-- The accept loop goes on to another place in `server_run`. -/
theorem mainGoesOn (sound : state.Sound) {main : MainStage}
    (same : held main (state.pool.monitor.activity (.caller ())) =
      held state.main (state.pool.monitor.activity (.caller ())))
    (calls : Calls main (state.pool.monitor.activity (.caller ())))
    (listens : main.listens = true → state.main.listens = true)
    (running : state.main.joined = false) (still : main.joined = false) :
    ServerState.Sound { state with main := main } :=
  ⟨sound.handling, sound.accepting.goesOn same calls, sound.kernel.goesOn listens,
    sound.stopping.goesOn running still⟩

/-- `accept` returns a number that is not in use, and `thread_pool_submit` is called. -/
theorem accept (sound : state.Sound) {number : Int32} {pool : PoolState threadCount Unit Socket}
    (accepting : state.main = .accepting) (unused : state.table number = none)
    (submit : state.pool.perform (.submit () ⟨number, state.connections⟩) = some pool) :
    ServerState.Sound
      { state with
        pool := pool
        main := .submitting ⟨number, state.connections⟩
        table := Function.update state.table number (some (.connection state.connections))
        connections := state.connections + 1
        history := state.history ++ [.accepted ⟨number, state.connections⟩] } := by
  have ordered := sound.handling.ordered.perform submit
  obtain ⟨monitor, entered, rfl⟩ := Option.map_eq_some_iff.mp submit
  obtain rfl := (Monitor.Config.eq_of_enter entered).2
  have running : state.main.joined = false := by rw [accepting]; rfl
  have listens : state.main.listens = true := by rw [accepting]; rfl
  refine ⟨(sound.handling.poolMoves ordered rfl rfl).note rfl rfl, ?_,
    sound.kernel.accept unused state.connections fun _ => listens, ?_⟩
  · dsimp only
    rw [Function.update_self]
    exact (accepting ▸ sound.accepting).accept number
  · have submitting :
        Stopping state.pool (.submitting ⟨number, state.connections⟩) state.history :=
      sound.stopping.goesOn running rfl
    exact (submitting.poolMoves nofun).note nofun nofun

/-- `thread_pool_submit` has returned. -/
theorem submitReturns (sound : state.Sound) {main : MainStage} {last : Option (PoolResult Socket)}
    (submitting : state.main = .submitting socket)
    (returned : state.pool.monitor.activity (.caller ()) = .outside last)
    (same : held main (.outside last) = held (.submitting socket) (.outside last))
    (calls : Calls main (.outside last)) (running : main.joined = false) :
    ServerState.Sound { state with main := main } := by
  refine sound.mainGoesOn ?_ ?_ (fun _ => ?_) ?_ running
  · rw [returned, submitting]
    exact same
  · rw [returned]
    exact calls
  · rw [submitting]
    rfl
  · rw [submitting]
    rfl

theorem performMain (sound : state.Sound) {move : MainMove}
    (performed : state.performMain move = some next) : next.Sound := by
  have calls := sound.accepting.calls
  obtain ⟨pool, main, shouldStop, listenFd, table, connections, clients, database, history⟩ := state
  cases move with
  | checkStop =>
      simp only [ServerState.performMain] at performed
      split at performed
      · cases performed
        split <;> exact sound.mainGoesOn rfl calls (fun _ => rfl) rfl rfl
      · cases performed
  | accept number =>
      simp only [ServerState.performMain] at performed
      split at performed
      · split at performed
        · next unused =>
            obtain ⟨entered, submit, rfl⟩ := Option.map_eq_some_iff.mp performed
            exact sound.accept rfl unused.2 submit
        · cases performed
      · cases performed
  | acceptFails error =>
      simp only [ServerState.performMain] at performed
      split at performed
      · cases performed
        cases error with
        | interrupted | badFd => exact sound.mainGoesOn rfl calls (fun _ => rfl) rfl rfl
        | other =>
            dsimp only
            split <;> exact sound.mainGoesOn rfl calls (fun _ => rfl) rfl rfl
      · cases performed
  | submitReturns =>
      simp only [ServerState.performMain] at performed
      split at performed
      · next socket other returned =>
          cases performed
          exact sound.submitReturns rfl returned rfl rfl rfl
      · next socket returned =>
          cases performed
          exact sound.submitReturns rfl returned rfl rfl rfl
      · cases performed
  | closeRefused =>
      simp only [ServerState.performMain] at performed
      split at performed
      · next socket =>
          cases performed
          obtain ⟨member, notClosed⟩ := sound.owned_of_refused rfl
          exact ⟨sound.handling.note rfl rfl, sound.accepting.close,
            sound.kernel.close member notClosed fun _ => rfl,
            (sound.stopping.goesOn rfl rfl).note nofun nofun⟩
      · cases performed
  | closeListening =>
      simp only [ServerState.performMain] at performed
      split at performed
      · cases performed
        exact ⟨sound.handling, sound.accepting.goesOn rfl calls, sound.kernel.closeListening,
          sound.stopping.goesOn rfl rfl⟩
      · cases performed
  | shutdown =>
      simp only [ServerState.performMain] at performed
      split at performed
      · obtain ⟨closing, moved, rfl⟩ := Option.map_eq_some_iff.mp performed
        have ordered := sound.handling.ordered.perform moved
        obtain ⟨_, rfl⟩ := PoolState.shutdown_eq_some moved
        refine ⟨sound.handling.poolMoves ordered rfl rfl, ?_, sound.kernel.goesOn nofun, ?_⟩
        · dsimp only
          rw [Function.update_of_ne (fun impossible => by cases impossible)]
          exact sound.accepting.goesOn rfl calls
        · exact (sound.stopping.goesOn rfl rfl).poolMoves nofun
      · cases performed
  | join =>
      simp only [ServerState.performMain] at performed
      split at performed
      · obtain ⟨joined, moved, rfl⟩ := Option.map_eq_some_iff.mp performed
        have ordered := sound.handling.ordered.perform moved
        obtain ⟨exited, rfl⟩ := PoolState.join_eq_some moved
        exact ⟨sound.handling.poolMoves ordered rfl rfl, sound.accepting.goesOn rfl calls,
          sound.kernel.goesOn nofun, sound.stopping.join exited⟩
      · cases performed
  | destroy =>
      simp only [ServerState.performMain] at performed
      split at performed
      · cases performed
        exact ⟨sound.handling.note rfl rfl, (sound.accepting.note rfl rfl).goesOn rfl calls,
          sound.kernel.note rfl rfl nofun, sound.stopping.destroy⟩
      · cases performed

/-- **Every move keeps the ownership.** -/
theorem perform (sound : state.Sound) {move : ServerMove threadCount}
    (performed : state.perform move = some next) : next.Sound := by
  cases move with
  | signal =>
      cases performed
      exact ⟨sound.handling, sound.accepting, sound.kernel, sound.stopping⟩
  | openOther number =>
      simp only [ServerState.perform] at performed
      split at performed
      · next free =>
          cases performed
          exact ⟨sound.handling, sound.accepting, sound.kernel.other (.inl free) _, sound.stopping⟩
      · cases performed
  | closeOther number =>
      simp only [ServerState.perform] at performed
      split at performed
      · next other =>
          cases performed
          exact ⟨sound.handling, sound.accepting, sound.kernel.other (.inr other) _,
            sound.stopping⟩
      · cases performed
  | pool move => exact sound.schedule performed
  | main move => exact sound.performMain performed
  | client index move => exact sound.performClient performed

end ServerState.Sound

/-- The server is sound in the beginning. -/
theorem sound_init {fds : Nat → Socket} {listenFd : Int32} {opened : Int32 → Bool} {store : Store}
    {state : ServerState threadCount}
    (started : serverInit threadCount fds listenFd opened store = some state) : state.Sound := by
  obtain ⟨pool, init, rfl⟩ := Option.map_eq_some_iff.mp started
  have ordered := PoolState.ordered_init init
  unfold threadPoolInit at init
  split at init
  · cases init
  · cases init
    refine ⟨⟨ordered, rfl, fun _ => rfl, fun _ => rfl⟩, ⟨rfl, .nil, rfl⟩, ⟨nofun, ?_, nofun, .nil⟩,
      ⟨nofun, nofun, .nil⟩⟩
    exact fun _ => if_pos rfl

/-- What the server owes to every connection. -/
structure ServerState.Owned (state : ServerState threadCount) : Prop where
  /-- A system call on the number of a connection reaches that connection. -/
  targets : ∀ party syscall socket target,
    .call party syscall socket target ∈ state.history →
      target = some (.connection socket.connection)
  /-- After `close` there is no other system call for the connection. -/
  silent : state.history.Pairwise fun earlier later =>
    ∀ socket, earlier.closes = some socket → later.uses ≠ some socket
  distinct : (accepted state.history).Nodup
  closedOnce : (closed state.history).Nodup
  closedAccepted : closed state.history ⊆ accepted state.history
  /-- Until it is closed, a connection is with the accept loop, in the queue or with a
  worker. -/
  kept : ∀ socket ∈ accepted state.history, socket ∈ closed state.history ∨
    socket ∈ held state.main (state.pool.monitor.activity (.caller ())) ∨
    socket ∈ state.pool.queue.ring.contents ∨
    (∃ index, state.pool.pending index = some socket) ∨
    ∃ index, unclosed (state.clients index) = some socket
  /-- The accept loop closes only what `thread_pool_submit` refused. -/
  refused : ∀ socket ∈ closedByAcceptLoop state.history, socket ∉ state.pool.accepted
  /-- A handler closes what it was called with, when it has responded. -/
  handled : ∀ entry ∈ closedByHandlers state.history,
    entry ∈ state.pool.handled ∧ entry ∈ answered state.history
  /-- No connection gets two responses. -/
  answeredOnce : ((answered state.history).map Prod.snd).Nodup
  answeredHandled : answered state.history ⊆ state.pool.handled
  /-- No handler uses the engine after `db_destroy`. -/
  last : state.history.Pairwise fun earlier later =>
    earlier = .destroyed → ∀ index, later ≠ .database index
  /-- In the end every connection has been closed, and every one that was handled has
  had its response. -/
  returned : state.main = .returned →
    (closed state.history).Perm (accepted state.history) ∧
      (closedByHandlers state.history).Perm state.pool.handled ∧
      (answered state.history).Perm state.pool.handled

namespace ServerState.Sound

variable {state : ServerState threadCount}

/-- An unanswered connection is open. -/
theorem unclosed_of_unanswered {client : Option Client} {socket : Socket}
    (waits : unanswered client = some socket) : unclosed client = some socket := by
  cases client with
  | none => cases waits
  | some client =>
      simp only [unanswered] at waits
      split at waits
      · cases waits
      · next notAnswered =>
          rw [← waits, unclosed, if_pos]
          obtain ⟨_, stage⟩ := client
          cases stage with
          | closed => exact absurd rfl notAnswered
          | reading | executing | responding | sending | closing => rfl

/-- Only accepted connections are closed, and none twice. -/
theorem closed_subperm (sound : state.Sound) :
    (closed state.history).Subperm (accepted state.history) := by
  have handled := sound.closedByHandlers_subperm sound.handling.closes.subperm
  refine (closed_perm state.history).subperm.trans ?_
  refine List.Subperm.trans ?_ sound.accepting.accounts.symm.subperm
  exact handled.append (List.sublist_append_right _ _).subperm

theorem nodup_of_subperm (sound : state.Sound) {sockets : List Socket}
    (part : sockets.Subperm (accepted state.history)) : sockets.Nodup := by
  obtain ⟨others, perm, sublist⟩ := part
  exact perm.nodup_iff.mp (sound.accepting.nodup.sublist sublist)

/-- No connection is lost. -/
theorem kept (sound : state.Sound) {socket : Socket} (member : socket ∈ accepted state.history) :
    socket ∈ closed state.history ∨
      socket ∈ held state.main (state.pool.monitor.activity (.caller ())) ∨
      socket ∈ state.pool.queue.ring.contents ∨
      (∃ index, state.pool.pending index = some socket) ∨
      ∃ index, unclosed (state.clients index) = some socket := by
  have closedBy : ∀ socket, socket ∈ (closedByHandlers state.history).map Prod.snd ++
      closedByAcceptLoop state.history → socket ∈ closed state.history :=
    fun socket => (closed_perm state.history).mem_iff.mpr
  rw [sound.accepting.accounts.mem_iff, List.mem_append, List.mem_append, PoolState.accepted,
    sound.handling.ordered.order.order, List.mem_append] at member
  rcases member with (dequeued | queued) | mine | refused
  · obtain ⟨entry, taken, rfl⟩ := List.mem_map.mp dequeued
    rcases sound.handling.ordered.handles.follows.done_or_busy taken with handled | pending
    · rcases sound.handling.closes.done_or_busy handled with closes | opened
      · exact .inl (closedBy _ (List.mem_append_left _ (List.mem_map_of_mem closes)))
      · exact .inr (.inr (.inr (.inr ⟨entry.1, opened⟩)))
    · exact .inr (.inr (.inr (.inl ⟨entry.1, pending⟩)))
  · exact .inr (.inr (.inl queued))
  · exact .inr (.inl mine)
  · exact .inl (closedBy _ (List.mem_append_right _ refused))

/-- When `server_run` returns, nothing is left to be done. -/
theorem returned (sound : state.Sound) (positive : 0 < threadCount)
    (main : state.main = .returned) :
    (closed state.history).Perm (accepted state.history) ∧
      (closedByHandlers state.history).Perm state.pool.handled ∧
      (answered state.history).Perm state.pool.handled := by
  have exited : ∀ index, state.pool.Exited index := sound.stopping.exited (by rw [main]; rfl)
  have gone : ∀ index, state.clients index = none := by
    intro index
    rw [Option.eq_none_iff_forall_ne_some]
    exact fun client here => sound.handling.not_exited here (exited index)
  have closes := sound.handling.closes.perm fun index => by
    rw [Function.comp_apply, gone]
    rfl
  have answers := sound.handling.answers.perm fun index => by
    rw [Function.comp_apply, gone]
    rfl
  refine ⟨?_, closes, answers⟩
  have handled := (sound.handling.ordered.finished positive exited).2
  have accounts := sound.accepting.accounts
  rw [main] at accounts
  have closedHandled := (closes.map Prod.snd).trans handled
  exact (closed_perm state.history).trans ((closedHandled.append_right _).trans accounts.symm)

/-- A sound server owns its connections. -/
theorem owned (sound : state.Sound) (positive : 0 < threadCount) : state.Owned where
  targets := sound.kernel.targets
  silent := sound.kernel.silent
  distinct := sound.accepting.nodup
  closedOnce := sound.nodup_of_subperm sound.closed_subperm
  closedAccepted := sound.closed_subperm.subset
  kept := fun _ member => sound.kept member
  refused := by
    have nodup := sound.nodup_of_subperm sound.accepting.accounts.symm.subperm
    intro socket closes submitted
    exact List.disjoint_of_nodup_append nodup submitted (List.mem_append_right _ closes)
  handled := fun entry closes => ⟨sound.handling.closes.subperm.subset closes,
    sound.handling.answers.subset_of_first sound.handling.closes
      (fun _ _ => unclosed_of_unanswered) closes⟩
  answeredOnce := by
    have accepted := sound.closedByHandlers_subperm sound.handling.answers.subperm
    refine sound.nodup_of_subperm (accepted.trans ?_)
    exact (List.sublist_append_left _ _).subperm.trans sound.accepting.accounts.symm.subperm
  answeredHandled := sound.handling.answers.subperm.subset
  last := sound.stopping.last
  returned := sound.returned positive

end ServerState.Sound

/-- **Connection ownership.** In every state that the server reaches, with any number of
workers, whatever the clients send and whichever numbers the kernel gives out, each
connection has one owner, who alone makes system calls on its number and closes it once. -/
theorem connections_owned {fds : Nat → Socket} {listenFd : Int32} {opened : Int32 → Bool}
    {store : Store} {initial state : ServerState threadCount}
    (started : serverInit threadCount fds listenFd opened store = some initial)
    (reached : Reaches ServerState.perform initial state) : state.Owned := by
  have sound := reached.invariant ServerState.Sound (sound_init started)
    fun _ _ _ sound performed => sound.perform performed
  refine sound.owned (Nat.pos_of_ne_zero ?_)
  rintro rfl
  cases started

/-- One worker serves two connections that get the same number, one after the other, and
the server is stopped. -/
theorem connections_owned_reused :
    ∃ state : ServerState 1, state.main = .returned ∧
      accepted state.history = [⟨5, 0⟩, ⟨5, 1⟩] ∧ state.Owned := by
  let worker : PoolThread 1 Unit := .worker 0
  let request := ascii "GET /health HTTP/1.1\r\n\r\n"
  let submit (woken : Option (PoolThread 1 Unit)) : List (ServerMove 1) :=
    [.main .checkStop, .main (.accept 5), .pool (.lock (.caller ())),
      .pool (.turn (.caller ()) fun | .notEmpty => woken | .notFull => none),
      .main .submitReturns]
  let handle (answer : Recv) : List (ServerMove 1) :=
    [.pool (.turn worker fun _ => none), .client 0 .begin, .client 0 (.recv answer),
      .client 0 (.route .generous), .client 0 .respond, .client 0 .send, .client 0 .sent,
      .client 0 .close, .client 0 .returns, .pool (.lock worker)]
  let stop : List (ServerMove 1) :=
    [.main .checkStop, .signal, .main (.acceptFails .interrupted), .main .checkStop,
      .main .closeListening, .main .shutdown, .pool (.lock .closer),
      .pool (.turn .closer fun _ => none), .pool (.resume worker),
      .pool (.turn worker fun _ => none), .main .join, .main .destroy]
  let moves : List (ServerMove 1) :=
    [.pool (.lock worker), .pool (.turn worker fun _ => none)] ++ submit (some worker) ++
      [.pool (.resume worker)] ++ handle (.data request) ++
      [.pool (.turn worker fun _ => none)] ++ submit (some worker) ++ [.pool (.resume worker)] ++
      handle .failed ++ [.pool (.turn worker fun _ => none)] ++ stop
  let path := CString.ofBuffer (ascii "users.db")
  let start : Store := { db := emptyEngine (path.truncate dbPathLimit), file := [] }
  let run : Option (ServerState 1) :=
    (serverInit 1 (fun _ => ⟨0, 0⟩) 3 (fun number => number == 0) start).bind fun state =>
      moves.foldlM ServerState.perform state
  have performed : run.isSome := by decide +kernel
  have facts : run.any (fun state => decide (state.main = .returned ∧
      accepted state.history = [⟨5, 0⟩, ⟨5, 1⟩])) = true := by decide +kernel
  obtain ⟨state, same⟩ := Option.isSome_iff_exists.mp performed
  obtain ⟨initial, started, ran⟩ := Option.bind_eq_some_iff.mp same
  rw [same] at facts
  obtain ⟨returned, sockets⟩ := of_decide_eq_true facts
  exact ⟨state, returned, sockets, connections_owned started (reaches_of_foldlM ran)⟩

end MiniDbms.Server
