import MiniDbms.Db.Faults
import MiniDbms.Server.Transcript

/-! # The responses of the server

In every run of the server each response follows from the bytes of its own connection, or from
the one call on the engine that they led to; the calls are made one after the other, in an order
in which a call that was answered before a request was read comes before the call of this request
(`MiniDbms.Server.server_linearizable`). While nothing is refused, the responses are
those of one table of rows (`MiniDbms.Server.responses_rowTable`).
-/

namespace MiniDbms.Server

open Foundation Util Db Sql Http

variable {threadCount : Nat}

/-- The completed calls of the workers. -/
abbrev CallLog (threadCount : Nat) : Type :=
  List (Completed (Fin threadCount) (Call × Environment) (DbResult × Heap))

/-- What was read leads to this stage of `handle_client`. -/
def Visit.Leads (visit : Visit) (stage : ClientStage) : Prop :=
  ∃ result heap, visit.reading = .returned result ∧ visit.routed = some heap ∧
    handleRequest result heap = stage

/-- A statement that is executed was parsed. -/
theorem Visit.Leads.parsed {visit : Visit} {stmt : SqlStatement}
    (leads : visit.Leads (.executing stmt)) : ∃ sql, sqlParse sql = .ok stmt := by
  obtain ⟨result, heap, _, _, leads⟩ := leads
  have query : ∀ request, handleQuery request heap = .executing stmt →
      ∃ sql, sqlParse sql = .ok stmt := by
    intro request executing
    simp only [handleQuery] at executing
    split at executing
    · cases executing
    · next sql extracted =>
        split at executing
        · cases executing
        · next parsed =>
            cases executing
            exact ⟨sql, parsed⟩
  simp only [handleRequest] at leads
  split at leads
  · cases leads
  · split at leads
    · cases leads
    · split at leads
      · exact query _ leads
      · split at leads <;> cases leads

/-- The response follows from what was read, or from the worker's own call on the engine. -/
inductive Justified (log : CallLog threadCount) (statements : List SqlStatement)
    (index : Fin threadCount) (visit : Visit) (response : HttpResponse) : Prop where
  | direct (leads : visit.Leads (.responding response)) (noCall : visit.call = none)
  | query {stmt : SqlStatement} {position : Nat} {heap : Heap}
      {entry : Completed (Fin threadCount) (Call × Environment) (DbResult × Heap)}
      (leads : visit.Leads (.executing stmt)) (call : visit.call = some (position, heap))
      (statement : statements[position]? = some stmt) (completed : log[position]? = some entry)
      (own : entry.thread = index) (answer : response = answerQuery entry.result.1 heap)

/-- The call of the one was completed before that of the other. -/
def Precedes (earlier later : Visit) : Prop :=
  ∀ first ∈ earlier.call, ∀ second ∈ later.call, first.1 < second.1

/-- What stands in the first part stands in the whole. -/
theorem getElem?_of_prefix {α : Type*} {part whole : List α} (first : part <+: whole)
    {position : Nat} {a : α} (found : part[position]? = some a) : whole[position]? = some a := by
  obtain ⟨bound, rfl⟩ := List.getElem?_eq_some_iff.mp found
  exact List.prefix_iff_getElem?.mp first position bound

section Justified

variable {log more : CallLog threadCount} {statements added : List SqlStatement}
  {index : Fin threadCount} {visit : Visit} {response : HttpResponse}

/-- More calls do not change why a response was given. -/
theorem Justified.extend (justified : Justified log statements index visit response)
    (calls : log <+: more) (parsed : statements <+: added) :
    Justified more added index visit response := by
  cases justified with
  | direct leads noCall => exact .direct leads noCall
  | query leads call statement completed own answer =>
      apply Justified.query leads call
      · exact getElem?_of_prefix parsed statement
      · exact getElem?_of_prefix calls completed
      · exact own
      · exact answer

/-- The call was completed. -/
theorem Justified.call_lt (justified : Justified log statements index visit response)
    {call : Nat × Heap} (made : call ∈ visit.call) : call.1 < log.length := by
  cases justified with
  | direct leads noCall =>
      rw [noCall] at made
      cases made
  | query leads call statement completed own answer =>
      rw [call] at made
      cases made
      exact (List.getElem?_eq_some_iff.mp completed).1

end Justified

/-- What holds of the responses made so far. -/
structure Exchanged (exchanges : List (Exchange threadCount)) (log : CallLog threadCount)
    (statements : List SqlStatement) : Prop where
  justified : ∀ exchange ∈ exchanges,
    Justified log statements exchange.worker exchange.visit exchange.response
  before : ∀ (position : Nat) exchange, exchanges[position]? = some exchange →
    exchange.visit.before ≤ position
  precedes : ∀ (position place : Nat) earlier later, exchanges[position]? = some earlier →
    exchanges[place]? = some later → position < later.visit.before →
      Precedes earlier.visit later.visit
  /-- A worker responds before it reads its next request. -/
  inTurn : ∀ (position place : Nat) earlier later, exchanges[position]? = some earlier →
    exchanges[place]? = some later → position < place → earlier.worker = later.worker →
      position < later.visit.before

namespace Exchanged

variable {exchanges : List (Exchange threadCount)} {log more : CallLog threadCount}
  {statements added : List SqlStatement}

theorem extend (exchanged : Exchanged exchanges log statements) (calls : log <+: more)
    (parsed : statements <+: added) : Exchanged exchanges more added :=
  { exchanged with
    justified := fun exchange made => (exchanged.justified exchange made).extend calls parsed }

/-- One more response. -/
theorem respond (exchanged : Exchanged exchanges log statements) {exchange : Exchange threadCount}
    (justified : Justified log statements exchange.worker exchange.visit exchange.response)
    (bounded : exchange.visit.before ≤ exchanges.length)
    (precedes : ∀ (position : Nat) earlier, exchanges[position]? = some earlier →
      position < exchange.visit.before → Precedes earlier.visit exchange.visit)
    (inTurn : ∀ (position : Nat) earlier, exchanges[position]? = some earlier →
      earlier.worker = exchange.worker → position < exchange.visit.before) :
    Exchanged (exchanges ++ [exchange]) log statements := by
  have cases : ∀ (position : Nat) other, (exchanges ++ [exchange])[position]? = some other →
      exchanges[position]? = some other ∨ position = exchanges.length ∧ other = exchange := by
    intro position other found
    rcases Nat.lt_or_ge position exchanges.length with inside | beyond
    · rw [List.getElem?_append_left inside] at found
      exact .inl found
    · rw [List.getElem?_append_right beyond] at found
      have last : position - exchanges.length = 0 := by
        by_contra later
        rw [List.getElem?_eq_none (by rw [List.length_singleton]; omega)] at found
        cases found
      rw [last] at found
      exact .inr ⟨by omega, (Option.some.inj found).symm⟩
  refine ⟨?_, ?_, ?_, ?_⟩
  · intro other made
    rcases List.mem_append.mp made with before | last
    · exact exchanged.justified other before
    · rw [List.mem_singleton.mp last]
      exact justified
  · intro position other found
    rcases cases position other found with before | ⟨rfl, rfl⟩
    · exact exchanged.before position other before
    · exact bounded
  · intro position place earlier later first second early
    rcases cases place later second with before | ⟨rfl, rfl⟩
    · have within := exchanged.before place later before
      have bound := (List.getElem?_eq_some_iff.mp before).1
      rw [List.getElem?_append_left (by omega)] at first
      exact exchanged.precedes position place earlier later first before early
    · rw [List.getElem?_append_left (by omega)] at first
      exact precedes position earlier first early
  · intro position place earlier later first second before same
    rcases cases place later second with old | ⟨rfl, rfl⟩
    · have bound := (List.getElem?_eq_some_iff.mp old).1
      rw [List.getElem?_append_left (by omega)] at first
      exact exchanged.inTurn position place earlier later first old before same
    · rw [List.getElem?_append_left before] at first
      exact inTurn position earlier first same

/-- No call is answered twice. -/
theorem once (exchanged : Exchanged exchanges log statements) {position place : Nat}
    {earlier later : Exchange threadCount} (first : exchanges[position]? = some earlier)
    (second : exchanges[place]? = some later) (different : position ≠ place)
    {call other : Nat × Heap} (made : call ∈ earlier.visit.call)
    (also : other ∈ later.visit.call) : call.1 ≠ other.1 := by
  intro same
  have owner : earlier.worker = later.worker := by
    have one := exchanged.justified earlier (List.mem_of_getElem? first)
    have two := exchanged.justified later (List.mem_of_getElem? second)
    cases one with
    | direct leads noCall =>
        rw [noCall] at made
        cases made
    | query leads answered statement completed own answer =>
        cases two with
        | direct leads noCall =>
            rw [noCall] at also
            cases also
        | query leads' answered' statement' completed' own' answer' =>
            rw [answered] at made
            rw [answered'] at also
            cases made
            cases also
            dsimp only at same
            rw [same] at completed
            cases completed.symm.trans completed'
            exact own.symm.trans own'
  rcases Nat.lt_or_gt_of_ne different with before | after
  · have early := exchanged.inTurn position place earlier later first second before owner
    have smaller := exchanged.precedes position place earlier later first second early call made
      other also
    omega
  · have early := exchanged.inTurn place position later earlier second first after owner.symm
    have smaller := exchanged.precedes place position later earlier second first early other also
      call made
    omega

end Exchanged

/-- The call of a worker on the engine is the one for its statement. -/
def Calling (stmt : SqlStatement) : Activity (Call × Environment) Task → Prop
  | .idle => True
  | .waiting op => op.1 = statementCall stmt
  | .inside op _ _ => op.1 = statementCall stmt

/-- A worker that has not responded yet began to read after it responded last. -/
structure Begun (exchanges : List (Exchange threadCount)) (index : Fin threadCount)
    (visit : Visit) : Prop where
  le : visit.before ≤ exchanges.length
  inTurn : ∀ (position : Nat) exchange, exchanges[position]? = some exchange →
    exchange.worker = index → position < visit.before

/-- What a worker is doing agrees with what is recorded of it. -/
inductive Serving (exchanges : List (Exchange threadCount)) (log : CallLog threadCount)
    (statements : List SqlStatement) (index : Fin threadCount) :
    Option Client → Option Visit → Activity (Call × Environment) Task → Prop where
  | nobody (visit : Option Visit) : Serving exchanges log statements index none visit .idle
  | reading {visit : Visit} (socket : Socket) (noCall : visit.call = none)
      (begun : Begun exchanges index visit) :
      Serving exchanges log statements index
        (some { socket := socket, stage := .reading visit.reading }) (some visit) .idle
  | executing {visit : Visit} {stmt : SqlStatement} {activity : Activity (Call × Environment) Task}
      (socket : Socket) (noCall : visit.call = none) (begun : Begun exchanges index visit)
      (leads : visit.Leads (.executing stmt)) (calling : Calling stmt activity) :
      Serving exchanges log statements index
        (some { socket := socket, stage := .executing stmt }) (some visit) activity
  | responding {visit : Visit} {response : HttpResponse} (socket : Socket)
      (begun : Begun exchanges index visit)
      (justified : Justified log statements index visit response)
      (precedes : ∀ (position : Nat) earlier, exchanges[position]? = some earlier →
        position < visit.before → Precedes earlier.visit visit) :
      Serving exchanges log statements index
        (some { socket := socket, stage := .responding response }) (some visit) .idle
  | answered {stage : ClientStage} (socket : Socket) (visit : Option Visit)
      (done : stage.answered = true) :
      Serving exchanges log statements index (some { socket := socket, stage := stage }) visit .idle

section Serving

variable {exchanges made : List (Exchange threadCount)} {log more : CallLog threadCount}
  {statements added : List SqlStatement} {index : Fin threadCount} {client : Option Client}
  {visit : Option Visit} {activity : Activity (Call × Environment) Task}

/-- The exchanges of others do not matter to a visit. -/
theorem Begun.extend {visit : Visit} (begun : Begun exchanges index visit)
    (others : ∀ exchange ∈ made, exchange.worker ≠ index) :
    Begun (exchanges ++ made) index visit where
  le := by
    rw [List.length_append]
    exact begun.le.trans (Nat.le_add_right _ _)
  inTurn := by
    intro position exchange found mine
    rcases Nat.lt_or_ge position exchanges.length with inside | beyond
    · rw [List.getElem?_append_left inside] at found
      exact begun.inTurn position exchange found mine
    · rw [List.getElem?_append_right beyond] at found
      exact absurd mine (others exchange (List.mem_of_getElem? found))

/-- The others go on. -/
theorem Serving.extend (serving : Serving exchanges log statements index client visit activity)
    (others : ∀ exchange ∈ made, exchange.worker ≠ index) (calls : log <+: more)
    (parsed : statements <+: added) :
    Serving (exchanges ++ made) more added index client visit activity := by
  cases serving with
  | nobody visit => exact .nobody visit
  | reading socket noCall begun => exact .reading socket noCall (begun.extend others)
  | executing socket noCall begun leads calling =>
      exact .executing socket noCall (begun.extend others) leads calling
  | responding socket begun justified precedes =>
      apply Serving.responding socket (begun.extend others) (justified.extend calls parsed)
      intro position earlier found early
      rw [List.getElem?_append_left (early.trans_le begun.le)] at found
      exact precedes position earlier found early
  | answered socket visit done => exact .answered socket visit done

end Serving

/-- A worker goes on in its call on the engine, or completes it. -/
theorem perform_engineMove {index : Fin threadCount} {stmt : SqlStatement} {move : EngineMove}
    {database next : Config (Fin threadCount) (Call × Environment) Task Store (DbResult × Heap)}
    (performed : database.perform lockProtocol (ServerState.engineMove index stmt move) = some next)
    (calling : Calling stmt (database.activity index)) :
    (∀ other ≠ index, next.activity other = database.activity other) ∧
      ((∀ heap, move ≠ .release heap) ∧ next.log = database.log ∧
          Calling stmt (next.activity index) ∨
        (∃ heap, move = .release heap) ∧ next.activity index = .idle ∧
          ∃ entry, next.log = database.log ++ [entry] ∧ entry.thread = index ∧
            entry.op.1 = statementCall stmt) := by
  have others : ∀ {other : Fin threadCount} {activity : Activity (Call × Environment) Task},
      other ≠ index → Function.update database.activity index activity other =
        database.activity other := fun different => Function.update_of_ne different _ _
  cases move with
  | request env =>
      simp only [ServerState.engineMove, Config.perform] at performed
      split at performed
      · cases performed
        refine ⟨fun other => others, .inl ⟨?_, rfl, ?_⟩⟩
        · intro _ impossible
          cases impossible
        · dsimp only
          rw [Function.update_self]
          rfl
      · cases performed
  | acquire =>
      simp only [ServerState.engineMove, Config.perform] at performed
      split at performed
      · next op waiting =>
          split at performed
          · cases performed
            refine ⟨fun other => others, .inl ⟨?_, rfl, ?_⟩⟩
            · intro _ impossible
              cases impossible
            · dsimp only
              rw [Function.update_self]
              rw [waiting] at calling
              exact calling
          · cases performed
      · cases performed
  | work =>
      simp only [ServerState.engineMove, Config.perform] at performed
      split at performed
      · next op here ticket inside =>
          split at performed
          · cases performed
            refine ⟨fun other => others, .inl ⟨?_, rfl, ?_⟩⟩
            · intro _ impossible
              cases impossible
            · dsimp only
              rw [Function.update_self]
              rw [inside] at calling
              exact calling
          · cases performed
      · cases performed
  | release heap =>
      simp only [ServerState.engineMove, Config.perform] at performed
      split at performed
      · next op here ticket inside =>
          split at performed
          · cases performed
          · cases performed
            rw [inside] at calling
            exact ⟨fun other => others, .inr ⟨⟨heap, rfl⟩, Function.update_self _ _ _, _, rfl, rfl,
              calling⟩⟩
      · cases performed

namespace Transcript

/-- The worker is about to answer with the call at this position. -/
def Owes (transcript : Transcript threadCount) (index : Fin threadCount) (position : Nat) : Prop :=
  ∃ socket response visit heap,
    transcript.state.clients index = some { socket := socket, stage := .responding response } ∧
      transcript.visits index = some visit ∧ visit.call = some (position, heap)

/-- The call at this position has been answered, or a worker is about to. -/
def Accounts (transcript : Transcript threadCount) (position : Nat) : Prop :=
  (∃ exchange ∈ transcript.exchanges, ∃ heap, exchange.visit.call = some (position, heap)) ∨
    ∃ index, transcript.Owes index position

/-- What holds between any two moves. -/
structure Kept (start : Store) (transcript : Transcript threadCount) : Prop where
  sound : transcript.state.Sound
  serialized : ∃ base, Serialized lockProtocol start base transcript.state.database
  parsed : ∀ stmt ∈ transcript.statements, ∃ sql, sqlParse sql = .ok stmt
  calls : transcript.state.database.log.map (·.op.1) = transcript.statements.map statementCall
  serving : ∀ index, Serving transcript.exchanges transcript.state.database.log
    transcript.statements index (transcript.state.clients index) (transcript.visits index)
    (transcript.state.database.activity index)
  exchanged : Exchanged transcript.exchanges transcript.state.database.log transcript.statements
  accounts : ∀ position < transcript.statements.length, transcript.Accounts position
  responses : answered transcript.state.history =
    transcript.exchanges.map fun exchange => (exchange.worker, exchange.socket)

namespace Kept

variable {start : Store} {transcript next : Transcript threadCount} {index : Fin threadCount}

/-- The other workers do what they did. -/
def Apart (index : Fin threadCount) (before after : Transcript threadCount) : Prop :=
  ∀ other ≠ index, after.state.clients other = before.state.clients other ∧
    after.visits other = before.visits other ∧
    after.state.database.activity other = before.state.database.activity other

/-- What others owe does not change. -/
theorem Apart.owes {before after : Transcript threadCount} (apart : Apart index before after)
    {other : Fin threadCount} (different : other ≠ index) {position : Nat}
    (owes : before.Owes other position) : after.Owes other position := by
  obtain ⟨socket, response, visit, heap, client, recorded, call⟩ := owes
  obtain ⟨clients, visits, _⟩ := apart other different
  exact ⟨socket, response, visit, heap, clients.trans client, visits.trans recorded, call⟩

/-- One worker goes on: responses and completed calls may be added. -/
theorem advance (kept : transcript.Kept start) (apart : Apart index transcript next)
    (sound : next.state.Sound)
    (serialized : ∃ base, Serialized lockProtocol start base next.state.database)
    (made : List (Exchange threadCount)) (more : CallLog threadCount) (added : List SqlStatement)
    (exchanges : next.exchanges = transcript.exchanges ++ made)
    (mine : ∀ exchange ∈ made, exchange.worker = index)
    (log : next.state.database.log = transcript.state.database.log ++ more)
    (statements : next.statements = transcript.statements ++ added)
    (calls : more.map (·.op.1) = added.map statementCall)
    (parsed : ∀ stmt ∈ added, ∃ sql, sqlParse sql = .ok stmt)
    (serving : Serving next.exchanges next.state.database.log next.statements index
      (next.state.clients index) (next.visits index) (next.state.database.activity index))
    (exchanged : Exchanged next.exchanges next.state.database.log next.statements)
    (owed : ∀ position, transcript.Owes index position → next.Accounts position)
    (executed : ∀ position, transcript.statements.length ≤ position →
      position < next.statements.length → next.Accounts position)
    (responses : answered next.state.history = answered transcript.state.history ++
      made.map fun exchange => (exchange.worker, exchange.socket)) : next.Kept start where
  sound := sound
  serialized := serialized
  parsed := by
    intro stmt member
    rw [statements] at member
    rcases List.mem_append.mp member with before | new
    · exact kept.parsed stmt before
    · exact parsed stmt new
  calls := by
    rw [log, statements, List.map_append, List.map_append, kept.calls, calls]
  serving := by
    intro other
    by_cases same : other = index
    · rw [same]
      exact serving
    · obtain ⟨clients, visits, activity⟩ := apart other same
      rw [clients, visits, activity, exchanges]
      apply (kept.serving other).extend
      · intro exchange member theirs
        exact same (theirs.symm.trans (mine exchange member))
      · rw [log]
        exact List.prefix_append _ _
      · rw [statements]
        exact List.prefix_append _ _
  exchanged := exchanged
  accounts := by
    intro position bound
    rcases Nat.lt_or_ge position transcript.statements.length with before | new
    · rcases kept.accounts position before with ⟨exchange, member, call⟩ | ⟨other, owes⟩
      · refine .inl ⟨exchange, ?_, call⟩
        rw [exchanges]
        exact List.mem_append_left _ member
      · by_cases same : other = index
        · exact owed position (same ▸ owes)
        · exact .inr ⟨other, apart.owes same owes⟩
    · exact executed position new bound
  responses := by
    rw [responses, kept.responses, exchanges, List.map_append]

/-- One worker goes on, without a response or a completed call. -/
theorem goesOn (kept : transcript.Kept start) (apart : Apart index transcript next)
    (sound : next.state.Sound)
    (serialized : ∃ base, Serialized lockProtocol start base next.state.database)
    (exchanges : next.exchanges = transcript.exchanges)
    (log : next.state.database.log = transcript.state.database.log)
    (statements : next.statements = transcript.statements)
    (serving : Serving transcript.exchanges transcript.state.database.log transcript.statements
      index (next.state.clients index) (next.visits index) (next.state.database.activity index))
    (nothing : ∀ position, ¬transcript.Owes index position)
    (responses : answered next.state.history = answered transcript.state.history) :
    next.Kept start := by
  have exchanged := kept.exchanged
  apply kept.advance apart sound serialized [] [] []
  · rw [exchanges, List.append_nil]
  · exact fun _ impossible => (List.not_mem_nil impossible).elim
  · rw [log, List.append_nil]
  · rw [statements, List.append_nil]
  · rfl
  · exact fun _ impossible => (List.not_mem_nil impossible).elim
  · rw [exchanges, log, statements]
    exact serving
  · rw [exchanges, log, statements]
    exact exchanged
  · exact fun position owes => (nothing position owes).elim
  · intro position new bound
    rw [statements] at bound
    omega
  · rw [responses, List.map_nil, List.append_nil]

/-- Only a worker about to respond owes an answer. -/
theorem not_owes {client : Option Client} (here : transcript.state.clients index = client)
    (other : ∀ socket response,
      client ≠ some { socket := socket, stage := .responding response }) (position : Nat) :
    ¬transcript.Owes index position := by
  intro ⟨socket, response, _, _, found, _⟩
  exact other socket response (here.symm.trans found)

/-- The worker's entry is new, the others are as before. -/
theorem apart_update {client : Option Client} {visit : Option Visit}
    (clients : next.state.clients = Function.update transcript.state.clients index client)
    (visits : next.visits = Function.update transcript.visits index visit)
    (activity : ∀ other ≠ index, next.state.database.activity other =
      transcript.state.database.activity other) : Apart index transcript next := by
  intro other different
  rw [clients, visits, Function.update_of_ne different, Function.update_of_ne different]
  exact ⟨rfl, rfl, activity other different⟩

/-- A worker with a client serves it. -/
theorem serving_of_client (kept : transcript.Kept start) {client : Option Client}
    (here : transcript.state.clients index = client) :
    Serving transcript.exchanges transcript.state.database.log transcript.statements index client
      (transcript.visits index) (transcript.state.database.activity index) :=
  here ▸ kept.serving index

/-- A worker that has not begun yet, and one that is done, does nothing on the engine. -/
theorem idle_of_none (kept : transcript.Kept start)
    (here : transcript.state.clients index = none) :
    transcript.state.database.activity index = .idle := by
  have serving := kept.serving_of_client here
  generalize transcript.state.database.activity index = activity at serving
  cases serving with
  | nobody => rfl

/-- A worker calls `handle_client`. -/
theorem begin (kept : transcript.Kept start) {state : ServerState threadCount}
    (performed : transcript.state.performClient index .begin = some state) :
    Kept start { transcript.recordClient index .begin with state := state } := by
  have sound := kept.sound.performClient performed
  obtain ⟨pool, handle, called⟩ := Option.bind_eq_some_iff.mp performed
  obtain ⟨clientFd, _, idle, rfl⟩ := PoolState.handle_eq_some handle
  obtain ⟨socket, _, rfl⟩ := Option.map_eq_some_iff.mp called
  have nobody : transcript.state.clients index = none := by
    rw [← kept.sound.handling.serves] at idle
    exact Option.map_eq_none_iff.mp idle
  have quiet := kept.idle_of_none nobody
  refine kept.goesOn (apart_update rfl rfl fun _ _ => rfl) sound kept.serialized rfl rfl rfl
    ?_ ?_ ?_
  · simp only [ServerState.setStage, recordClient, Function.update_self, quiet]
    have begun : Begun transcript.exchanges index
        { before := transcript.exchanges.length, answers := [], routed := none, call := none } :=
      ⟨Nat.le_refl _, fun _ _ found _ => (List.getElem?_eq_some_iff.mp found).1⟩
    exact .reading socket rfl begun
  · exact not_owes nobody fun _ _ impossible => by cases impossible
  · rfl

/-- A worker receives. -/
theorem recv (kept : transcript.Kept start) {state : ServerState threadCount} {answer : Recv}
    (performed : transcript.state.performClient index (.recv answer) = some state) :
    Kept start { transcript.recordClient index (.recv answer) with state := state } := by
  have sound := kept.sound.performClient performed
  simp only [ServerState.performClient] at performed
  split at performed
  · next socket reading here =>
      have serving := kept.serving_of_client here
      have silent := @not_owes _ transcript index _ here fun _ _ impossible => by cases impossible
      split at performed
      · cases performed
      · cases performed
        generalize busy : transcript.state.database.activity index = activity at serving
        generalize seen : transcript.visits index = visit at serving
        cases serving with
        | @reading visit socket noCall begun =>
            refine kept.goesOn (apart_update rfl rfl fun _ _ => rfl) sound kept.serialized rfl
              rfl rfl ?_ ?_ ?_
            · simp only [ServerState.setStage, ServerState.call, recordClient, change,
                Function.update_self, busy, seen, Option.map_some]
              have reads : ({ visit with answers := visit.answers ++ [answer] } : Visit).reading =
                  visit.reading.receive answer := List.foldl_concat _ _ _ _
              rw [← reads]
              exact .reading socket noCall ⟨begun.le, begun.inTurn⟩
            · exact silent
            · simp only [ServerState.setStage, ServerState.call, answered,
                List.filterMap_append]
              exact List.append_nil _
        | answered socket visit done => cases done
  · cases performed

/-- A worker has read its request. -/
theorem route (kept : transcript.Kept start) {state : ServerState threadCount} {heap : Heap}
    (performed : transcript.state.performClient index (.route heap) = some state) :
    Kept start { transcript.recordClient index (.route heap) with state := state } := by
  have sound := kept.sound.performClient performed
  simp only [ServerState.performClient] at performed
  split at performed
  · next socket result here =>
      have serving := kept.serving_of_client here
      have silent := @not_owes _ transcript index _ here fun _ _ impossible => by cases impossible
      cases performed
      generalize busy : transcript.state.database.activity index = activity at serving
      generalize seen : transcript.visits index = visit at serving
      generalize stage : ClientStage.reading (.returned result) = reading at serving
      cases serving with
      | @reading visit socket noCall _ =>
          refine kept.goesOn (apart_update rfl rfl fun _ _ => rfl) sound kept.serialized rfl
            rfl rfl ?_ ?_ ?_
          · simp only [ServerState.setStage, recordClient, change, Function.update_self, busy, seen,
              Option.map_some]
            let routed : Visit :=
              { visit with routed := some heap, before := transcript.exchanges.length }
            have leads : routed.Leads (handleRequest result heap) :=
              ⟨result, heap, (ClientStage.reading.inj stage).symm, rfl, rfl⟩
            have begun : Begun transcript.exchanges index routed :=
              ⟨Nat.le_refl _, fun _ _ found _ => (List.getElem?_eq_some_iff.mp found).1⟩
            rcases handleRequest_stage result heap with ⟨response, next⟩ | ⟨stmt, next⟩
            · rw [next] at leads ⊢
              refine .responding socket begun (.direct leads noCall) ?_
              intro position earlier found early first made second also
              rw [noCall] at also
              cases also
            · rw [next] at leads ⊢
              exact .executing socket noCall begun leads trivial
          · exact silent
          · rfl
      | answered socket visit done =>
          rw [← stage] at done
          cases done
      | executing => cases stage
      | responding => cases stage
  · cases performed

/-- A worker goes on in its call on the engine. -/
theorem work (kept : transcript.Kept start) {socket : Socket} {stmt : SqlStatement} {visit : Visit}
    {database : Config (Fin threadCount) (Call × Environment) Task Store (DbResult × Heap)}
    (here : transcript.state.clients index = some { socket := socket, stage := .executing stmt })
    (seen : transcript.visits index = some visit) (noCall : visit.call = none)
    (begun : Begun transcript.exchanges index visit) (leads : visit.Leads (.executing stmt))
    (others : ∀ other ≠ index,
      database.activity other = transcript.state.database.activity other)
    (serialized : ∃ base, Serialized lockProtocol start base database)
    (log : database.log = transcript.state.database.log)
    (calling : Calling stmt (database.activity index)) {state : ServerState threadCount}
    (sound : state.Sound)
    (same : state = { transcript.state with
      database := database
      history := transcript.state.history ++ [.database index] }) :
    Kept start { transcript with state := state } := by
  subst same
  refine kept.goesOn (fun other different => ⟨rfl, rfl, others other different⟩) sound
    serialized rfl log rfl ?_ ?_ ?_
  · simp only [here, seen]
    exact .executing socket noCall begun leads calling
  · exact not_owes here fun _ _ impossible => by cases impossible
  · simp only [answered, List.filterMap_append]
    exact List.append_nil _

/-- A worker completes its call on the engine. -/
theorem release (kept : transcript.Kept start) {socket : Socket} {stmt : SqlStatement}
    {visit : Visit} {heap : Heap}
    {database : Config (Fin threadCount) (Call × Environment) Task Store (DbResult × Heap)}
    {entry : Completed (Fin threadCount) (Call × Environment) (DbResult × Heap)}
    (here : transcript.state.clients index = some { socket := socket, stage := .executing stmt })
    (seen : transcript.visits index = some visit)
    (begun : Begun transcript.exchanges index visit) (leads : visit.Leads (.executing stmt))
    (others : ∀ other ≠ index,
      database.activity other = transcript.state.database.activity other)
    (serialized : ∃ base, Serialized lockProtocol start base database)
    (idle : database.activity index = .idle)
    (log : database.log = transcript.state.database.log ++ [entry]) (own : entry.thread = index)
    (call : entry.op.1 = statementCall stmt) {state : ServerState threadCount}
    (sound : state.Sound)
    (same : state = ServerState.setStage
      { transcript.state with
        database := database
        history := transcript.state.history ++ [.database index] }
      index socket (.responding (answerQuery entry.result.1 heap))) :
    Kept start
      { transcript.recordClient index (.engine (.release heap)) with state := state } := by
  subst same
  have counted : transcript.state.database.log.length = transcript.statements.length := by
    have lengths := congrArg List.length kept.calls
    rwa [List.length_map, List.length_map] at lengths
  have recorded : transcript.recordClient index (.engine (.release heap)) =
      { transcript.change index fun visit =>
          { visit with call := some (transcript.statements.length, heap) } with
        statements := transcript.statements ++ [stmt] } := by
    simp only [recordClient, here, Transcript.complete]
  have justified : Justified database.log (transcript.statements ++ [stmt]) index
      { visit with call := some (transcript.statements.length, heap) }
      (answerQuery entry.result.1 heap) := by
    refine .query leads rfl ?_ ?_ own rfl
    · rw [List.getElem?_concat_length]
    · rw [log, ← counted, List.getElem?_concat_length]
  have exchanged := kept.exchanged
  rw [recorded]
  refine kept.advance (apart_update rfl rfl fun other different => others other different)
    sound serialized [] [entry] [stmt] (List.append_nil _).symm ?_ log rfl ?_ ?_ ?_ ?_ ?_ ?_ ?_
  · exact fun _ impossible => (List.not_mem_nil impossible).elim
  · rw [List.map_singleton, List.map_singleton, call]
  · intro other member
    rw [List.mem_singleton.mp member]
    exact leads.parsed
  · simp only [ServerState.setStage, change, Function.update_self, seen, idle, Option.map_some]
    refine .responding socket ⟨begun.le, begun.inTurn⟩ justified ?_
    intro position earlier found early first made second also
    cases also
    have bound := (exchanged.justified earlier (List.mem_of_getElem? found)).call_lt made
    exact counted ▸ bound
  · refine exchanged.extend ?_ (List.prefix_append _ _)
    exact log ▸ List.prefix_append _ _
  · exact fun position owes => (not_owes here (fun _ _ impossible => by cases impossible) position
      owes).elim
  · intro position least bound
    rw [List.length_append, List.length_singleton] at bound
    obtain rfl : position = transcript.statements.length := by omega
    refine .inr ⟨index, socket, answerQuery entry.result.1 heap,
      { visit with call := some (transcript.statements.length, heap) }, heap, ?_, ?_, rfl⟩
    · exact Function.update_self _ _ _
    · simp only [change, Function.update_self, seen, Option.map_some]
  · simp only [ServerState.setStage, answered, List.filterMap_append]
    rfl

/-- A worker goes on in its call on the engine, or completes it. -/
theorem engine (kept : transcript.Kept start) {state : ServerState threadCount} {move : EngineMove}
    (performed : transcript.state.performClient index (.engine move) = some state) :
    Kept start { transcript.recordClient index (.engine move) with state := state } := by
  have sound := kept.sound.performClient performed
  obtain ⟨base, serialized⟩ := kept.serialized
  simp only [ServerState.performClient] at performed
  split at performed
  · next socket stmt here =>
      have serving := kept.serving_of_client here
      obtain ⟨database, moved, same⟩ := Option.map_eq_some_iff.mp performed
      have serial := serialized.step (performed_of_perform moved)
      generalize busy : transcript.state.database.activity index = activity at serving
      generalize seen : transcript.visits index = visit at serving
      cases serving with
      | @executing visit stmt activity socket noCall begun leads calling =>
          obtain ⟨others, ⟨goesOn, log, calling⟩ | ⟨⟨heap, rfl⟩, idle, entry, log, own, call⟩⟩ :=
            perform_engineMove moved (busy.symm ▸ calling)
          · have work := fun same =>
              kept.work here seen noCall begun leads others serial log calling sound same
            cases move with
            | request env => exact work same.symm
            | acquire => exact work same.symm
            | work => exact work same.symm
            | release heap => exact (goesOn heap rfl).elim
          · refine kept.release here seen begun leads others serial idle log own call sound ?_
            rw [← same]
            simp only [ServerState.lastResult, log, List.getLast?_concat]
      | answered socket visit done => cases done
  · cases performed

/-- A worker makes its response. -/
theorem respond (kept : transcript.Kept start) {state : ServerState threadCount}
    (performed : transcript.state.performClient index .respond = some state) :
    Kept start { transcript.recordClient index .respond with state := state } := by
  have sound := kept.sound.performClient performed
  simp only [ServerState.performClient] at performed
  split at performed
  · next socket response here =>
      have serving := kept.serving_of_client here
      cases performed
      generalize busy : transcript.state.database.activity index = activity at serving
      generalize seen : transcript.visits index = visit at serving
      cases serving with
      | @responding visit response socket begun justified precedes =>
          have recorded : transcript.recordClient index .respond =
              { transcript with
                exchanges := transcript.exchanges ++ [⟨index, socket, visit, response⟩] } := by
            simp only [recordClient, here, seen, Transcript.respond]
          have exchanged := @Exchanged.respond _ _ _ _ kept.exchanged
            ⟨index, socket, visit, response⟩ justified begun.le precedes begun.inTurn
          rw [recorded]
          refine kept.advance
            (fun other different => ⟨Function.update_of_ne different _ _, rfl, rfl⟩) sound
            kept.serialized [⟨index, socket, visit, response⟩] [] [] rfl ?_
            (List.append_nil _).symm (List.append_nil _).symm rfl ?_ ?_ exchanged ?_ ?_ ?_
          · intro exchange member
            rw [List.mem_singleton.mp member]
          · exact fun _ impossible => (List.not_mem_nil impossible).elim
          · simp only [ServerState.setStage, Function.update_self, busy]
            exact .answered socket _ rfl
          · intro position owes
            obtain ⟨_, _, owed, heap, _, found, call⟩ := owes
            cases seen.symm.trans found
            refine .inl ⟨_, List.mem_append_right _ (List.mem_singleton_self _), heap, call⟩
          · exact fun position least bound => absurd bound (Nat.not_lt.mpr least)
          · simp only [ServerState.setStage, answered, List.filterMap_append]
            rfl
      | answered socket visit done => cases done
  · cases performed

/-- A worker that has responded goes on. -/
theorem finish (kept : transcript.Kept start) {client next : Option Client}
    (here : transcript.state.clients index = client)
    (done : ∀ now ∈ client, now.stage.answered = true)
    (still : ∀ now ∈ next, now.stage.answered = true) {state : ServerState threadCount}
    (sound : state.Sound)
    (clients : state.clients = Function.update transcript.state.clients index next)
    (database : state.database = transcript.state.database)
    (responses : answered state.history = answered transcript.state.history) :
    Kept start { transcript with state := state } := by
  have serving := kept.serving_of_client here
  have silent := @not_owes _ transcript index _ here (by
    rintro socket response rfl
    cases done _ rfl)
  generalize busy : transcript.state.database.activity index = activity at serving
  have idle : activity = .idle := by
    generalize transcript.visits index = visit at serving
    cases serving with
    | nobody | reading | responding | answered => rfl
    | executing => cases done _ rfl
  have apart : Apart index transcript { transcript with state := state } := by
    intro other different
    rw [clients, database, Function.update_of_ne different]
    exact ⟨rfl, rfl, rfl⟩
  refine kept.goesOn apart sound (database ▸ kept.serialized) rfl (by rw [database]) rfl ?_ silent
    responses
  · rw [clients, database, Function.update_self, busy, idle]
    cases next with
    | none => exact .nobody _
    | some now => exact .answered now.socket _ (still now rfl)

/-- A step of a worker keeps the transcript right. -/
theorem performClient (kept : transcript.Kept start) {state : ServerState threadCount}
    {move : ClientMove} (performed : transcript.state.performClient index move = some state) :
    Kept start { transcript.recordClient index move with state := state } := by
  have sound := kept.sound.performClient performed
  cases move with
  | begin => exact kept.begin performed
  | recv answer => exact kept.recv performed
  | route heap => exact kept.route performed
  | engine move => exact kept.engine performed
  | respond => exact kept.respond performed
  | send =>
      simp only [ServerState.performClient] at performed
      split at performed
      · next socket here =>
          cases performed
          refine kept.finish here ?_ ?_ sound (Function.update_eq_self index _).symm rfl ?_
          · rintro _ ⟨⟩
            rfl
          · intro now member
            cases here.symm.trans member
            rfl
          · simp only [ServerState.call, answered, List.filterMap_append]
            exact List.append_nil _
      · cases performed
  | sent =>
      simp only [ServerState.performClient] at performed
      split at performed
      · next socket here =>
          cases performed
          refine kept.finish here ?_ ?_ sound rfl rfl rfl <;> rintro _ ⟨⟩ <;> rfl
      · cases performed
  | close =>
      simp only [ServerState.performClient] at performed
      split at performed
      · next socket here =>
          cases performed
          refine kept.finish here ?_ ?_ sound rfl rfl ?_
          · rintro _ ⟨⟩
            rfl
          · rintro _ ⟨⟩
            rfl
          · simp only [ServerState.setStage, ServerState.closeSocket, ServerState.call, answered,
              List.filterMap_append]
            exact List.append_nil _
      · cases performed
  | returns =>
      simp only [ServerState.performClient] at performed
      split at performed
      · next socket here =>
          obtain ⟨pool, _, rfl⟩ := Option.map_eq_some_iff.mp performed
          refine kept.finish here ?_ ?_ sound rfl rfl rfl
          · rintro _ ⟨⟩
            rfl
          · intro _ impossible
            cases impossible
      · cases performed

/-- The others do not touch the handlers or the engine. -/
theorem aside (kept : transcript.Kept start) {state : ServerState threadCount}
    (sound : state.Sound) (clients : state.clients = transcript.state.clients)
    (database : state.database = transcript.state.database)
    (responses : answered state.history = answered transcript.state.history) :
    Kept start { transcript with state := state } where
  sound := sound
  serialized := database ▸ kept.serialized
  parsed := kept.parsed
  calls := database ▸ kept.calls
  serving := by
    rw [clients, database]
    exact kept.serving
  exchanged := database ▸ kept.exchanged
  accounts := by
    intro position bound
    apply (kept.accounts position bound).imp_right
    intro ⟨index, socket, response, visit, heap, client, rest⟩
    exact ⟨index, socket, response, visit, heap, clients ▸ client, rest⟩
  responses := responses.trans kept.responses

/-- The accept loop does not touch the workers and the engine. -/
theorem performMain_aside {state after : ServerState threadCount} {move : MainMove}
    (performed : state.performMain move = some after) :
    after.clients = state.clients ∧ after.database = state.database ∧
      answered after.history = answered state.history := by
  cases move with
  | checkStop | acceptFails | submitReturns | closeListening =>
      simp only [ServerState.performMain] at performed
      split at performed <;> cases performed <;> exact ⟨rfl, rfl, rfl⟩
  | accept number =>
      simp only [ServerState.performMain] at performed
      split at performed
      · split at performed
        · obtain ⟨_, _, rfl⟩ := Option.map_eq_some_iff.mp performed
          refine ⟨rfl, rfl, ?_⟩
          simp only [answered, List.filterMap_append]
          exact List.append_nil _
        · cases performed
      · cases performed
  | shutdown | join =>
      simp only [ServerState.performMain] at performed
      split at performed
      · obtain ⟨_, _, rfl⟩ := Option.map_eq_some_iff.mp performed
        exact ⟨rfl, rfl, rfl⟩
      · cases performed
  | closeRefused | destroy =>
      simp only [ServerState.performMain] at performed
      split at performed
      · cases performed
        refine ⟨rfl, rfl, ?_⟩
        simp only [ServerState.closeSocket, ServerState.call, answered, List.filterMap_append]
        exact List.append_nil _
      · cases performed

/-- **Every move keeps the transcript.** -/
theorem perform (kept : transcript.Kept start) {move : ServerMove threadCount}
    (performed : transcript.perform move = some next) : next.Kept start := by
  obtain ⟨state, moved, rfl⟩ := Option.map_eq_some_iff.mp performed
  have sound := kept.sound.perform moved
  cases move with
  | signal =>
      cases moved
      exact kept.aside sound rfl rfl rfl
  | openOther number | closeOther number =>
      simp only [ServerState.perform] at moved
      split at moved <;> cases moved
      exact kept.aside sound rfl rfl rfl
  | pool move =>
      obtain ⟨pool, _, rfl⟩ := Option.map_eq_some_iff.mp moved
      exact kept.aside sound rfl rfl rfl
  | main move =>
      obtain ⟨clients, database, responses⟩ := performMain_aside moved
      exact kept.aside sound clients database responses
  | client index move => exact kept.performClient moved

/-- The empty transcript is right. -/
theorem initial {state : ServerState threadCount} {fds : Nat → Socket} {listenFd : Int32}
    {opened : Int32 → Bool}
    (started : serverInit threadCount fds listenFd opened start = some state) :
    (Transcript.initial state).Kept start := by
  have sound := sound_init started
  obtain ⟨pool, _, rfl⟩ := Option.map_eq_some_iff.mp started
  refine
    ⟨sound, ⟨start, serialized_initial⟩, ?_, rfl, fun _ => .nobody _, ⟨?_, ?_, ?_, ?_⟩, ?_, rfl⟩
  all_goals exact nofun

end Kept

/-- What the clients can tell of a run. -/
structure Linear (transcript : Transcript threadCount) : Prop where
  /-- Every response follows from what was read from its connection, or from the call that this
  led to. -/
  justified : ∀ exchange ∈ transcript.exchanges,
    Justified transcript.state.database.log transcript.statements exchange.worker exchange.visit
      exchange.response
  /-- The completed calls are those of the statements. -/
  calls : transcript.state.database.log.map (·.op.1) = transcript.statements.map statementCall
  /-- No call is answered twice. -/
  once : ∀ (position place : Nat) earlier later, transcript.exchanges[position]? = some earlier →
    transcript.exchanges[place]? = some later → position ≠ place →
      ∀ call ∈ earlier.visit.call, ∀ other ∈ later.visit.call, call.1 ≠ other.1
  /-- No completed call goes unanswered. -/
  accounts : ∀ position < transcript.statements.length, transcript.Accounts position
  /-- A call that was answered before a request was read comes before the call of this request. -/
  precedes : ∀ (position : Nat) earlier, ∀ later ∈ transcript.exchanges,
    transcript.exchanges[position]? = some earlier → position < later.visit.before →
      Precedes earlier.visit later.visit
  /-- No connection gets two responses. -/
  connections : (transcript.exchanges.map Exchange.socket).Nodup

/-- A transcript that was kept right is linear. -/
theorem Kept.linear {start : Store} {transcript : Transcript threadCount}
    (kept : transcript.Kept start) (positive : 0 < threadCount) : transcript.Linear where
  justified := kept.exchanged.justified
  calls := kept.calls
  once := fun _ _ _ _ first second different _ made _ also =>
    kept.exchanged.once first second different made also
  accounts := kept.accounts
  precedes := by
    intro position earlier later member first early
    obtain ⟨place, second⟩ := List.mem_iff_getElem?.mp member
    exact kept.exchanged.precedes position place earlier later first second early
  connections := by
    have once := (kept.sound.owned positive).answeredOnce
    rwa [kept.responses, List.map_map] at once

/-- What every move of a run of the server has kept. -/
theorem kept_of_reaches {fds : Nat → Socket} {listenFd : Int32} {opened : Int32 → Bool}
    {start : Store} {initial : ServerState threadCount}
    (started : serverInit threadCount fds listenFd opened start = some initial)
    {transcript : Transcript threadCount}
    (reached : Reaches perform (Transcript.initial initial) transcript) :
    transcript.Kept start ∧ 0 < threadCount := by
  refine ⟨reached.invariant (Kept start) (Kept.initial started) fun _ _ _ kept performed =>
    kept.perform performed, Nat.pos_of_ne_zero ?_⟩
  rintro rfl
  cases started

end Transcript

/-- **The server is linearizable, whatever fails.** In every run on a file that could be loaded,
with any number of workers, whatever the clients send and whatever memory, opening of the file or
append is refused: every response follows from what was read from its connection or from the one
call on the engine that this led to; the completed calls, one after the other, are permitted by
the table of rows with failures; and their order is that in which conflicting calls took the lock
and does not contradict real time: a call that was answered before a request was read comes
before the call of this request. -/
theorem server_linearizable {dataPath : CString} {file : List UInt8} {env : Environment}
    {db : DbEngine} (loaded : (dbInit dataPath file env).1 = .ok db) {fds : Nat → Socket}
    {listenFd : Int32} {opened : Int32 → Bool} {initial : ServerState threadCount}
    (started : serverInit threadCount fds listenFd opened { db := db, file := file } =
      some initial)
    {transcript : Transcript threadCount}
    (reached : Reaches Transcript.perform (.initial initial) transcript) :
    ∃ records last, readFile file = .ok records ∧
      PermittedRun { db := db, file := file }
        (openedLedger records file ((dbInit dataPath file env.fresh).2.refused = false))
        transcript.state.database.log last ∧
      transcript.state.database.log.Pairwise lockProtocol.InOrder ∧ transcript.Linear := by
  obtain ⟨kept, positive⟩ := Transcript.kept_of_reaches started reached
  obtain ⟨base, serialized⟩ := kept.serialized
  obtain ⟨records, read, follows⟩ := follows_opened loaded
  obtain ⟨last, run, _⟩ := follows.replays serialized.replayed
  exact ⟨records, last, read, run, serialized.ordered, kept.linear positive⟩

/-- The calls of two workers overlap: an insert, and a select that is refused the memory for its
answer. The one that is completed last is answered first. -/
theorem server_linearizable_refused :
    let path := CString.ofBuffer (ascii "users.db")
    let file := ascii "7,ann,30\n"
    let start : Store := { db := openedEngine path file .calm, file := file }
    ∃ transcript : Transcript 2,
      transcript.exchanges.map (fun exchange => (exchange.worker, exchange.response.statusCode)) =
        [(1, 500), (0, 200)] ∧
      transcript.state.database.log.map (·.thread) = [0, 1] ∧ transcript.Linear ∧
      ∃ records last, readFile file = .ok records ∧
        PermittedRun start
          (openedLedger records file
            ((dbInit path file Environment.calm.fresh).2.refused = false))
          transcript.state.database.log last := by
  intro path file start
  let insert := ascii
    "POST /query HTTP/1.1\r\nContent-Length: 35\r\n\r\nINSERT INTO users VALUES (8,'b',31);"
  let select := ascii "POST /query HTTP/1.1\r\nContent-Length: 19\r\n\r\nSELECT * FROM users"
  let short : Environment :=
    { Environment.calm with heap := { Heap.generous with grants := fun _ => false } }
  let moves : List (ServerMove 2) :=
    ServerMove.submission 5 ++ ServerMove.submission 6 ++ ServerMove.pickup 0 ++
      ServerMove.pickup 1 ++
      [.client 0 (.recv (.data insert)), .client 0 (.route .generous),
        .client 0 (.engine (.request .calm)), .client 0 (.engine .acquire),
        .client 1 (.recv (.data select)), .client 1 (.route .generous),
        .client 1 (.engine (.request short))] ++
      List.replicate 10 (.client 0 (.engine .work)) ++
      [.client 0 (.engine (.release .generous)), .client 1 (.engine .acquire),
        .client 1 (.engine .work), .client 1 (.engine (.release .generous)), .client 1 .respond,
        .client 0 .respond]
  let run : Option (Transcript 2) :=
    (serverInit 2 (fun _ => ⟨0, 0⟩) 3 (fun number => number == 0) start).bind fun state =>
      moves.foldlM Transcript.perform (.initial state)
  have loaded := @dbInit_of_isOk path file .calm (by decide +kernel)
  have checked : run.any (fun transcript =>
      decide (transcript.exchanges.map (fun exchange =>
          (exchange.worker, exchange.response.statusCode)) = [(1, 500), (0, 200)]) &&
        decide (transcript.state.database.log.map (·.thread) = [0, 1])) = true := by
    decide +kernel
  obtain ⟨transcript, ran, facts⟩ := (Option.any_eq_true _ _).mp checked
  obtain ⟨initial, started, moved⟩ := Option.bind_eq_some_iff.mp ran
  obtain ⟨statuses, threads⟩ := Bool.and_eq_true_iff.mp facts
  obtain ⟨records, last, read, permitted, _, linear⟩ :=
    server_linearizable loaded started (reaches_of_foldlM moved)
  exact ⟨transcript, of_decide_eq_true statuses, of_decide_eq_true threads, linear, records, last,
    read, permitted⟩

/-- The response tells what the table of rows answers. -/
def Reports (response : HttpResponse) : Response → Prop
  | .failed => response.statusCode = 500
  | .rows objects => response.statusCode = 200 ∧ decodeRows response.body = some objects

/-- A result and its response tell the same. -/
theorem Answers.reports {result : DbResult} {answer : Response} (answers : Answers result answer)
    (heap : Heap) : Reports (answerQuery result heap) answer := by
  unfold answerQuery
  cases answer with
  | failed =>
      rw [show result.ok = false from answers, if_neg Bool.false_ne_true]
      change (sendErrorResponse 500 result.message heap).statusCode = 500
      unfold sendErrorResponse
      split <;> rfl
  | rows objects =>
      obtain ⟨succeeded, decoded⟩ := answers
      obtain ⟨json, present, decoded⟩ := Option.bind_eq_some_iff.mp decoded
      rw [if_pos succeeded, present]
      exact ⟨rfl, decoded⟩

/-- The table of records and the table of rows give the statements the same answers. -/
theorem tables_agree (table : Table) {statements : List SqlStatement}
    (parsed : ∀ stmt ∈ statements, ∃ sql, sqlParse sql = .ok stmt) :
    List.Forall₂ Answers (Table.machine.run table (statements.map statementCall)).1
      (RowTable.machine.run (rowTable table) (statements.map SqlStatement.request)).1 := by
  induction statements generalizing table with
  | nil => exact .nil
  | cons stmt statements ih =>
      obtain ⟨⟨sql, parses⟩, others⟩ := List.forall_mem_cons.mp parsed
      obtain ⟨answers, next⟩ := statement_follows table (sqlParse_wellFormed parses)
      have rest := ih (table.answer (statementCall stmt)).2 others
      rw [next] at rest
      exact .cons answers rest

/-- **While nothing is refused, the server is one table of rows.** From an empty file, in every
run in which nothing was refused to a completed call: every response follows from what was read
from its connection without the table, or it tells what the table of rows answers to the statement
that was read, when the statements of the completed calls are put to it one after the other. -/
theorem responses_rowTable {dataPath : CString} {env : Environment} {db : DbEngine}
    (calm : env.Calm) (granted : (dbInit dataPath [] env).2.refused = false)
    (loaded : (dbInit dataPath [] env).1 = .ok db) {fds : Nat → Socket} {listenFd : Int32}
    {opened : Int32 → Bool} {initial : ServerState threadCount}
    (started : serverInit threadCount fds listenFd opened { db := db, file := [] } = some initial)
    {transcript : Transcript threadCount}
    (reached : Reaches Transcript.perform (.initial initial) transcript)
    (provided : ∀ entry ∈ transcript.state.database.log, Provided entry) :
    let answers := (RowTable.machine.run .empty (transcript.statements.map SqlStatement.request)).1
    ∀ exchange ∈ transcript.exchanges,
      exchange.visit.Leads (.responding exchange.response) ∨
        ∃ stmt position heap answer, exchange.visit.Leads (.executing stmt) ∧
          exchange.visit.call = some (position, heap) ∧
          transcript.statements[position]? = some stmt ∧ answers[position]? = some answer ∧
          Reports exchange.response answer := by
  intro answers exchange member
  obtain ⟨kept, _⟩ := Transcript.kept_of_reaches started reached
  obtain ⟨base, serialized⟩ := kept.serialized
  obtain ⟨coherent, empty⟩ := dbInit_empty calm granted loaded
  obtain ⟨same, quiet⟩ := replays_run serialized.replayed provided
  have results : transcript.state.database.log.map (·.result.1) =
      (Table.machine.run db.table (transcript.statements.map statementCall)).1 := by
    have refined := (engine_refines_table coherent quiet).1
    rw [same, List.map_map] at refined
    rw [← kept.calls]
    exact refined
  have agree := tables_agree db.table kept.parsed
  rw [← results, empty] at agree
  cases kept.exchanged.justified exchange member with
  | direct leads noCall => exact .inl leads
  | @query stmt position heap entry leads call statement completed own answer =>
      have made : (transcript.state.database.log.map (·.result.1))[position]? =
          some entry.result.1 := by
        rw [List.getElem?_map, completed]
        rfl
      obtain ⟨inside, found⟩ := List.getElem?_eq_some_iff.mp made
      have within : position < answers.length := agree.length_eq ▸ inside
      have told := agree.get inside within
      rw [List.get_eq_getElem, found] at told
      refine .inr ⟨stmt, position, heap, answers.get ⟨position, within⟩, leads, call, statement,
        List.getElem?_eq_getElem within, ?_⟩
      rw [answer]
      exact told.reports heap

/-- The calls of two workers overlap: an insert, and a select that finds its row. -/
theorem responses_rowTable_insert :
    ∃ transcript : Transcript 2,
      transcript.exchanges.map (fun exchange => (exchange.worker, exchange.response.statusCode)) =
          [(1, 200), (0, 200)] ∧
        transcript.statements.map (·.type) = [.insert, .select] ∧
        ∀ exchange ∈ transcript.exchanges,
          exchange.visit.Leads (.responding exchange.response) ∨
            ∃ stmt position heap answer, exchange.visit.Leads (.executing stmt) ∧
              exchange.visit.call = some (position, heap) ∧
              transcript.statements[position]? = some stmt ∧
              (RowTable.machine.run .empty
                (transcript.statements.map SqlStatement.request)).1[position]? = some answer ∧
              Reports exchange.response answer := by
  let insert := ascii
    "POST /query HTTP/1.1\r\nContent-Length: 35\r\n\r\nINSERT INTO users VALUES (7,'a',30);"
  let select := ascii
    "POST /query HTTP/1.1\r\nContent-Length: 35\r\n\r\nSELECT name FROM users WHERE id = 7"
  let moves : List (ServerMove 2) :=
    ServerMove.submission 5 ++ ServerMove.submission 6 ++ ServerMove.pickup 0 ++
      ServerMove.pickup 1 ++
      [.client 0 (.recv (.data insert)), .client 0 (.route .generous),
        .client 0 (.engine (.request .calm)), .client 0 (.engine .acquire),
        .client 1 (.recv (.data select)), .client 1 (.route .generous),
        .client 1 (.engine (.request .calm))] ++
      List.replicate 10 (.client 0 (.engine .work)) ++
      [.client 0 (.engine (.release .generous)), .client 1 (.engine .acquire)] ++
      List.replicate 4 (.client 1 (.engine .work)) ++
      [.client 1 (.engine (.release .generous)), .client 1 .respond, .client 0 .respond]
  let path := CString.ofBuffer (ascii "users.db")
  let start : Store := { db := emptyEngine (path.truncate dbPathLimit), file := [] }
  let run : Option (Transcript 2) :=
    (serverInit 2 (fun _ => ⟨0, 0⟩) 3 (fun number => number == 0) start).bind fun state =>
      moves.foldlM Transcript.perform (.initial state)
  have checked : run.any (fun transcript =>
      decide (transcript.exchanges.map (fun exchange =>
          (exchange.worker, exchange.response.statusCode)) = [(1, 200), (0, 200)]) &&
        (decide (transcript.statements.map (·.type) = [.insert, .select]) &&
          decide (∀ entry ∈ transcript.state.database.log, Provided entry))) = true := by
    decide +kernel
  obtain ⟨transcript, ran, facts⟩ := (Option.any_eq_true _ _).mp checked
  obtain ⟨initial, started, moved⟩ := Option.bind_eq_some_iff.mp ran
  obtain ⟨statuses, facts⟩ := Bool.and_eq_true_iff.mp facts
  obtain ⟨kinds, provided⟩ := Bool.and_eq_true_iff.mp facts
  exact ⟨transcript, of_decide_eq_true statuses, of_decide_eq_true kinds,
    @responses_rowTable 2 path .calm _ (by decide) (by decide +kernel) rfl _ _ _ _ started _
      (reaches_of_foldlM moved) (of_decide_eq_true provided)⟩

end MiniDbms.Server
