import Mathlib.Logic.Function.Basic
import Mathlib.Logic.Relation

/-! # Operations under a readers-writer lock

Any number of threads run operations that each take a lock, work on shared state in
small steps, and release the lock. A lock is held by one writer or by any number of
readers, and only writers change the shared state.

In every interleaving the completed operations, in the order of their completion,
are a serial run with the same results (`MiniDbms.Foundation.Config.serialized`).
That order agrees with the order in which conflicting operations took the lock.
-/

namespace MiniDbms.Foundation

structure RwLock (Thread : Type) where
  writer : Option Thread
  readers : List Thread
  deriving DecidableEq

namespace RwLock

variable {Thread : Type}

def free : RwLock Thread := { writer := none, readers := [] }

/-- A writer needs the lock for itself, a reader needs it without a writer. -/
def Admits (lock : RwLock Thread) (exclusive : Bool) : Prop :=
  lock.writer = none ∧ (exclusive = true → lock.readers = [])

def take (lock : RwLock Thread) (thread : Thread) (exclusive : Bool) : RwLock Thread :=
  if exclusive then { lock with writer := some thread }
  else { lock with readers := thread :: lock.readers }

/-- The thread holds the lock. -/
def Holds (lock : RwLock Thread) (thread : Thread) (exclusive : Bool) : Prop :=
  if exclusive then lock.writer = some thread else thread ∈ lock.readers

/-- There are no readers beside a writer. -/
def Sound (lock : RwLock Thread) : Prop := lock.writer = none ∨ lock.readers = []

variable [DecidableEq Thread]

instance (lock : RwLock Thread) (exclusive : Bool) : Decidable (lock.Admits exclusive) :=
  inferInstanceAs (Decidable (lock.writer = none ∧ (exclusive = true → lock.readers = [])))

def drop (lock : RwLock Thread) (thread : Thread) : RwLock Thread :=
  if lock.writer = some thread then { lock with writer := none }
  else { lock with readers := lock.readers.erase thread }

variable {lock : RwLock Thread} {thread other : Thread} {exclusive others : Bool}

omit [DecidableEq Thread] in
/-- Nobody holds a lock beside a writer. -/
theorem Sound.alone (sound : lock.Sound) (holds : lock.Holds thread exclusive)
    (also : lock.Holds other others) (conflict : exclusive = true ∨ others = true) :
    thread = other := by
  unfold Holds at holds also
  rcases sound with free | empty
  · cases exclusive with
    | true => cases free.symm.trans holds
    | false =>
        cases others with
        | true => cases free.symm.trans also
        | false => simp at conflict
  · cases exclusive with
    | false =>
        rw [empty] at holds
        cases holds
    | true =>
        cases others with
        | false =>
            rw [empty] at also
            cases also
        | true => exact Option.some.inj (holds.symm.trans also)

omit [DecidableEq Thread] in
/-- While somebody reads there is no writer. -/
theorem Sound.writer_none (sound : lock.Sound) (holds : lock.Holds thread false) :
    lock.writer = none :=
  sound.resolve_right (List.ne_nil_of_mem holds)

omit [DecidableEq Thread] in
/-- A lock that admits a thread is not held by a conflicting one. -/
theorem Admits.not_holds (admits : lock.Admits exclusive)
    (conflict : exclusive = true ∨ others = true) :
    ¬lock.Holds other others := by
  intro holds
  cases others with
  | true => cases admits.1.symm.trans holds
  | false =>
      have reading : other ∈ lock.readers := holds
      rw [admits.2 (conflict.resolve_right Bool.false_ne_true)] at reading
      cases reading

omit [DecidableEq Thread] in
/-- A lock that is taken when it admits is sound. -/
theorem Admits.sound (admits : lock.Admits exclusive) : (lock.take thread exclusive).Sound := by
  cases exclusive with
  | true => exact .inr (admits.2 rfl)
  | false => exact .inl admits.1

omit [DecidableEq Thread] in
/-- A thread that takes the lock holds it. -/
theorem holds_take (lock : RwLock Thread) (thread : Thread) (exclusive : Bool) :
    (lock.take thread exclusive).Holds thread exclusive := by
  cases exclusive with
  | true => rfl
  | false => exact List.mem_cons_self

omit [DecidableEq Thread] in
/-- A second thread keeps the lock when another one takes it too. -/
theorem Holds.take (holds : lock.Holds other others) (admits : lock.Admits exclusive) :
    (lock.take thread exclusive).Holds other others := by
  cases exclusive with
  | true => exact absurd holds (admits.not_holds (.inl rfl))
  | false =>
      cases others with
      | true => exact absurd holds (admits.not_holds (.inr rfl))
      | false => exact List.mem_cons_of_mem thread holds

/-- Dropping a lock leaves it sound. -/
theorem Sound.drop (sound : lock.Sound) : (lock.drop thread).Sound := by
  unfold RwLock.drop
  split
  · exact .inl rfl
  · rcases sound with free | empty
    · exact .inl free
    · refine .inr ?_
      change lock.readers.erase thread = []
      rw [empty]
      rfl

/-- The others keep the lock when a thread releases it. -/
theorem Holds.drop (holds : lock.Holds other others) (different : other ≠ thread) :
    (lock.drop thread).Holds other others := by
  unfold RwLock.drop
  split
  · next writes =>
      cases others with
      | true => exact absurd (Option.some.inj (holds.symm.trans writes)) different
      | false => exact holds
  · cases others with
    | true => exact holds
    | false => exact (List.mem_erase_of_ne different).mpr holds

end RwLock

/-- What operations do between taking and releasing the lock. -/
structure Protocol (Op Local Shared Result : Type) where
  start : Op → Local
  step : Local → Shared → Local × Shared
  /-- The result, once there is nothing left to do. -/
  result : Local → Option Result
  exclusive : Local → Bool
  keeps : ∀ here shared, exclusive (step here shared).1 = exclusive here
  reads : ∀ here shared, exclusive here = false → (step here shared).2 = shared

inductive Activity (Op Local : Type) where
  | idle
  | waiting (op : Op)
  /-- Inside the lock, which was taken `ticket` times before. -/
  | inside (op : Op) (here : Local) (ticket : Nat)

/-- A completed operation. -/
structure Completed (Thread Op Result : Type) where
  thread : Thread
  op : Op
  ticket : Nat
  result : Result

/-- All threads, the lock and the shared state, with a history of what was completed. -/
structure Config (Thread Op Local Shared Result : Type) where
  activity : Thread → Activity Op Local
  lock : RwLock Thread
  shared : Shared
  /-- How often the lock was taken. -/
  clock : Nat
  log : List (Completed Thread Op Result)

inductive Move (Thread Op : Type) where
  | request (thread : Thread) (op : Op)
  | acquire (thread : Thread)
  | work (thread : Thread)
  | release (thread : Thread)

variable {Thread Op Local Shared Result : Type} [DecidableEq Thread]

namespace Config

/-- Nobody does anything yet. -/
def initial (shared : Shared) : Config Thread Op Local Shared Result where
  activity _ := .idle
  lock := .free
  shared := shared
  clock := 0
  log := []

variable (protocol : Protocol Op Local Shared Result)

/-- One step of one thread, if it is possible. -/
def perform (config : Config Thread Op Local Shared Result) :
    Move Thread Op → Option (Config Thread Op Local Shared Result)
  | .request thread op =>
      match config.activity thread with
      | .idle =>
          some { config with activity := Function.update config.activity thread (.waiting op) }
      | _ => none
  | .acquire thread =>
      match config.activity thread with
      | .waiting op =>
          let here := protocol.start op
          if config.lock.Admits (protocol.exclusive here) then
            some
              { config with
                activity := Function.update config.activity thread (.inside op here config.clock)
                lock := config.lock.take thread (protocol.exclusive here)
                clock := config.clock + 1 }
          else none
      | _ => none
  | .work thread =>
      match config.activity thread with
      | .inside op here ticket =>
          match protocol.result here with
          | none =>
              let (next, shared) := protocol.step here config.shared
              some
                { config with
                  activity := Function.update config.activity thread (.inside op next ticket)
                  shared := shared }
          | some _ => none
      | _ => none
  | .release thread =>
      match config.activity thread with
      | .inside op here ticket =>
          match protocol.result here with
          | none => none
          | some result =>
              some
                { config with
                  activity := Function.update config.activity thread .idle
                  lock := config.lock.drop thread
                  log := config.log ++
                    [{ thread := thread, op := op, ticket := ticket, result := result }] }
      | _ => none

/-- An interleaving, if all its steps are possible. -/
def run (config : Config Thread Op Local Shared Result) :
    List (Move Thread Op) → Option (Config Thread Op Local Shared Result)
  | [] => some config
  | move :: moves => (config.perform protocol move).bind fun next => next.run moves

end Config

namespace Protocol

omit [DecidableEq Thread]

variable (protocol : Protocol Op Local Shared Result)

/-- Whether an operation takes the lock for itself. -/
def writes (op : Op) : Bool := protocol.exclusive (protocol.start op)

/-- One step of work. -/
def Works (now next : Local × Shared) : Prop :=
  protocol.result now.1 = none ∧ next = protocol.step now.1 now.2

/-- Some steps of work. -/
def Reaches : Local × Shared → Local × Shared → Prop := Relation.ReflTransGen protocol.Works

/-- What an operation does when it has the shared state for itself. -/
def Completes (op : Op) (shared : Shared) (result : Result) (next : Shared) : Prop :=
  ∃ here, protocol.Reaches (protocol.start op, shared) (here, next) ∧
    protocol.result here = some result

/-- The completed operations, one after the other. -/
inductive Replays (initial : Shared) : List (Completed Thread Op Result) → Shared → Prop
  | nil : Replays initial [] initial
  | snoc {log : List (Completed Thread Op Result)} {shared next : Shared}
      {entry : Completed Thread Op Result} (earlier : Replays initial log shared)
      (last : protocol.Completes entry.op shared entry.result next) :
      Replays initial (log ++ [entry]) next

variable {protocol}

/-- There is at most one way to go on. -/
theorem Completes.unique {op : Op} {shared next next' : Shared} {result result' : Result}
    (one : protocol.Completes op shared result next)
    (two : protocol.Completes op shared result' next') : result = result' ∧ next = next' := by
  obtain ⟨here, first, done⟩ := one
  obtain ⟨here', second, done'⟩ := two
  have stuck : ∀ {now : Local} {state : Shared} {answer : Result} {other : Local × Shared},
      protocol.result now = some answer → protocol.Reaches (now, state) other →
      other = (now, state) := by
    intro now state answer other finished reaches
    rcases reaches.cases_head with same | ⟨next, works, _⟩
    · exact same.symm
    · cases finished.symm.trans works.1
  have single : Relator.RightUnique protocol.Works := by
    intro now next other left right
    exact left.2.trans right.2.symm
  rcases Relation.ReflTransGen.total_of_right_unique single first second with onward | back
  · cases stuck done onward
    exact ⟨Option.some.inj (done.symm.trans done'), rfl⟩
  · cases stuck done' back
    exact ⟨Option.some.inj (done.symm.trans done'), rfl⟩

/-- An operation completes alike under another name. -/
theorem Completes.map {op op' : Op} {shared next : Shared} {result : Result} (f : Local → Local)
    (start : f (protocol.start op) = protocol.start op')
    (step : ∀ here shared, protocol.step (f here) shared =
      (f (protocol.step here shared).1, (protocol.step here shared).2))
    (same : ∀ here, protocol.result (f here) = protocol.result here)
    (completes : protocol.Completes op shared result next) :
    protocol.Completes op' shared result next := by
  obtain ⟨here, reached, done⟩ := completes
  refine ⟨f here, ?_, (same here).trans done⟩
  rw [← start]
  refine Relation.ReflTransGen.lift (fun now => (f now.1, now.2)) ?_ _ _ reached
  intro now after works
  refine ⟨(same now.1).trans works.1, ?_⟩
  rw [works.2]
  exact (step now.1 now.2).symm

theorem Reaches.refl (now : Local × Shared) : protocol.Reaches now now := Relation.ReflTransGen.refl

/-- The work that is left after one step. -/
theorem Reaches.head {here : Local} {shared : Shared} {target : Local × Shared}
    (unfinished : protocol.result here = none)
    (rest : protocol.Reaches (protocol.step here shared) target) :
    protocol.Reaches (here, shared) target :=
  Relation.ReflTransGen.head ⟨unfinished, rfl⟩ rest

theorem Reaches.work {start : Local × Shared} {here : Local} {shared : Shared}
    (reached : protocol.Reaches start (here, shared)) (unfinished : protocol.result here = none) :
    protocol.Reaches start (protocol.step here shared) :=
  Relation.ReflTransGen.tail reached ⟨unfinished, rfl⟩

end Protocol

section Interleavings

variable {protocol : Protocol Op Local Shared Result}

/-- Two completed operations, of which one wrote, took the lock in the order in
which they were completed. -/
def Protocol.InOrder (protocol : Protocol Op Local Shared Result)
    (earlier later : Completed Thread Op Result) : Prop :=
  protocol.writes earlier.op = true ∨ protocol.writes later.op = true →
    earlier.ticket < later.ticket

/-- A thread inside the lock has done part of an operation on the state `base` and
nobody has interfered. -/
structure Inside (protocol : Protocol Op Local Shared Result) (base : Shared)
    (config : Config Thread Op Local Shared Result) (thread : Thread) (op : Op) (here : Local)
    (ticket : Nat) : Prop where
  reached : protocol.Reaches (protocol.start op, base) (here, config.shared)
  exclusive : protocol.exclusive here = protocol.writes op
  holds : config.lock.Holds thread (protocol.writes op)
  recent : ticket < config.clock
  later : ∀ entry ∈ config.log, protocol.writes entry.op = true ∨ protocol.writes op = true →
    entry.ticket < ticket

/-- The completed operations are a serial run that ends in `base`, which is the
shared state unless a writer is at work. -/
structure Serialized (protocol : Protocol Op Local Shared Result) (start base : Shared)
    (config : Config Thread Op Local Shared Result) : Prop where
  replayed : protocol.Replays start config.log base
  settled : config.lock.writer = none → config.shared = base
  sound : config.lock.Sound
  past : ∀ entry ∈ config.log, entry.ticket < config.clock
  ordered : config.log.Pairwise protocol.InOrder
  inside : ∀ thread op here ticket, config.activity thread = .inside op here ticket →
    Inside protocol base config thread op here ticket

variable {start base : Shared} {config next : Config Thread Op Local Shared Result}

omit [DecidableEq Thread] in
/-- In the beginning nothing has been completed. -/
theorem serialized_initial :
    Serialized protocol start start
      (Config.initial start : Config Thread Op Local Shared Result) where
  replayed := .nil
  settled _ := rfl
  sound := .inl rfl
  past := nofun
  ordered := .nil
  inside := nofun

omit [DecidableEq Thread] in
/-- Two conflicting threads are never inside together. -/
theorem Serialized.alone (serialized : Serialized protocol start base config)
    {thread other : Thread} {op op' : Op} {here here' : Local} {ticket ticket' : Nat}
    (one : config.activity thread = .inside op here ticket)
    (two : config.activity other = .inside op' here' ticket')
    (conflict : protocol.writes op = true ∨ protocol.writes op' = true) : thread = other :=
  serialized.sound.alone (serialized.inside _ _ _ _ one).holds (serialized.inside _ _ _ _ two).holds
    conflict

/-- What a possible step does. -/
inductive Performed (protocol : Protocol Op Local Shared Result)
    (config : Config Thread Op Local Shared Result) :
    Config Thread Op Local Shared Result → Prop
  | request (thread : Thread) (op : Op) (idle : config.activity thread = .idle) :
      Performed protocol config
        { config with activity := Function.update config.activity thread (.waiting op) }
  | acquire (thread : Thread) (op : Op) (waiting : config.activity thread = .waiting op)
      (admits : config.lock.Admits (protocol.writes op)) :
      Performed protocol config
        { config with
          activity :=
            Function.update config.activity thread (.inside op (protocol.start op) config.clock)
          lock := config.lock.take thread (protocol.writes op)
          clock := config.clock + 1 }
  | work (thread : Thread) (op : Op) (here : Local) (ticket : Nat)
      (inside : config.activity thread = .inside op here ticket)
      (unfinished : protocol.result here = none) :
      Performed protocol config
        { config with
          activity := Function.update config.activity thread
            (.inside op (protocol.step here config.shared).1 ticket)
          shared := (protocol.step here config.shared).2 }
  | release (thread : Thread) (op : Op) (here : Local) (ticket : Nat) (result : Result)
      (inside : config.activity thread = .inside op here ticket)
      (finished : protocol.result here = some result) :
      Performed protocol config
        { config with
          activity := Function.update config.activity thread .idle
          lock := config.lock.drop thread
          log := config.log ++
            [{ thread := thread, op := op, ticket := ticket, result := result }] }

/-- Every move is one of those that may be performed. -/
theorem performed_of_perform {move : Move Thread Op}
    (possible : config.perform protocol move = some next) : Performed protocol config next := by
  cases move with
  | request thread op =>
      simp only [Config.perform] at possible
      split at possible
      · next idle =>
          cases possible
          exact .request thread op idle
      · cases possible
  | acquire thread =>
      simp only [Config.perform] at possible
      split at possible
      · next op waiting =>
          split at possible
          · next admits =>
              cases possible
              exact .acquire thread op waiting admits
          · cases possible
      · cases possible
  | work thread =>
      simp only [Config.perform] at possible
      split at possible
      · next op here ticket inside =>
          split at possible
          · next unfinished =>
              cases possible
              exact .work thread op here ticket inside unfinished
          · cases possible
      · cases possible
  | release thread =>
      simp only [Config.perform] at possible
      split at possible
      · next op here ticket inside =>
          split at possible
          · cases possible
          · next result finished =>
              cases possible
              exact .release thread op here ticket result inside finished
      · cases possible

/-- Who is inside after one thread went over to something else. -/
theorem inside_update {activity : Thread → Activity Op Local} {thread other : Thread}
    {new : Activity Op Local} {op : Op} {here : Local} {ticket : Nat}
    (now : Function.update activity thread new other = .inside op here ticket) :
    (other = thread ∧ new = .inside op here ticket) ∨
      (other ≠ thread ∧ activity other = .inside op here ticket) := by
  by_cases same : other = thread
  · rw [same, Function.update_self] at now
    exact .inl ⟨same, now⟩
  · rw [Function.update_of_ne same] at now
    exact .inr ⟨same, now⟩

/-- A request changes nothing. -/
theorem Serialized.request (serialized : Serialized protocol start base config) (thread : Thread)
    (op : Op) :
    Serialized protocol start base
      { config with activity := Function.update config.activity thread (.waiting op) } where
  replayed := serialized.replayed
  settled := serialized.settled
  sound := serialized.sound
  past := serialized.past
  ordered := serialized.ordered
  inside := by
    intro other op' here ticket now
    rcases inside_update now with ⟨_, impossible⟩ | ⟨_, before⟩
    · cases impossible
    · have kept := serialized.inside other op' here ticket before
      exact ⟨kept.reached, kept.exclusive, kept.holds, kept.recent, kept.later⟩

/-- A thread that takes the lock sees what the completed operations left. -/
theorem Serialized.acquire (serialized : Serialized protocol start base config) (thread : Thread)
    {op : Op} (admits : config.lock.Admits (protocol.writes op)) :
    Serialized protocol start base
      { config with
        activity :=
          Function.update config.activity thread (.inside op (protocol.start op) config.clock)
        lock := config.lock.take thread (protocol.writes op)
        clock := config.clock + 1 } where
  replayed := serialized.replayed
  settled _ := serialized.settled admits.1
  sound := admits.sound
  past entry member := Nat.lt_succ_of_lt (serialized.past entry member)
  ordered := serialized.ordered
  inside := by
    intro other op' here ticket now
    rcases inside_update now with ⟨same, new⟩ | ⟨_, before⟩
    · cases new
      subst same
      have fresh := serialized.settled admits.1
      refine ⟨?_, rfl, RwLock.holds_take _ _ _, Nat.lt_succ_self _, ?_⟩
      · rw [← fresh]
        exact .refl _
      · exact fun entry member _ => serialized.past entry member
    · have kept := serialized.inside other op' here ticket before
      exact ⟨kept.reached, kept.exclusive, kept.holds.take admits, Nat.lt_succ_of_lt kept.recent,
        kept.later⟩

omit [DecidableEq Thread] in
/-- A reader's work leaves the shared state alone. -/
theorem Serialized.work_reads (serialized : Serialized protocol start base config)
    {thread : Thread} {op : Op} {here : Local} {ticket : Nat}
    (inside : config.activity thread = .inside op here ticket)
    (reads : protocol.writes op = false) :
    (protocol.step here config.shared).2 = config.shared := by
  apply protocol.reads
  rw [(serialized.inside thread op here ticket inside).exclusive, reads]

/-- A step of a thread with the lock goes on with its operation. -/
theorem Serialized.work (serialized : Serialized protocol start base config) {thread : Thread}
    {op : Op} {here : Local} {ticket : Nat}
    (inside : config.activity thread = .inside op here ticket)
    (unfinished : protocol.result here = none) :
    Serialized protocol start base
      { config with
        activity := Function.update config.activity thread
          (.inside op (protocol.step here config.shared).1 ticket)
        shared := (protocol.step here config.shared).2 } := by
  have mine := serialized.inside thread op here ticket inside
  refine ⟨serialized.replayed, ?_, serialized.sound, serialized.past, serialized.ordered, ?_⟩
  · intro free
    cases writes : protocol.writes op with
    | true =>
        have holds := mine.holds
        rw [writes] at holds
        cases free.symm.trans holds
    | false => exact (serialized.work_reads inside writes).trans (serialized.settled free)
  · intro other op' here' ticket' now
    rcases inside_update now with ⟨same, new⟩ | ⟨different, before⟩
    · cases new
      subst same
      exact ⟨mine.reached.work unfinished, (protocol.keeps _ _).trans mine.exclusive, mine.holds,
        mine.recent, mine.later⟩
    · have kept := serialized.inside other op' here' ticket' before
      have reads : protocol.writes op = false := by
        by_contra writes
        exact different (serialized.alone before inside (.inr (eq_true_of_ne_false writes)))
      have reached := kept.reached
      rw [← serialized.work_reads inside reads] at reached
      exact ⟨reached, kept.exclusive, kept.holds, kept.recent, kept.later⟩

/-- The operation that is released becomes the last one of the serial run. -/
theorem Serialized.release (serialized : Serialized protocol start base config) {thread : Thread}
    {op : Op} {here : Local} {ticket : Nat} {result : Result}
    (inside : config.activity thread = .inside op here ticket)
    (finished : protocol.result here = some result) :
    Serialized protocol start config.shared
      { config with
        activity := Function.update config.activity thread .idle
        lock := config.lock.drop thread
        log := config.log ++
          [{ thread := thread, op := op, ticket := ticket, result := result }] } := by
  have mine := serialized.inside thread op here ticket inside
  refine ⟨serialized.replayed.snoc ⟨here, mine.reached, finished⟩, fun _ => rfl,
    serialized.sound.drop, ?_, ?_, ?_⟩
  · intro entry member
    rcases List.mem_append.mp member with old | new
    · exact serialized.past entry old
    · rw [List.mem_singleton.mp new]
      exact mine.recent
  · refine List.pairwise_append.mpr ⟨serialized.ordered, List.pairwise_singleton _ _, ?_⟩
    intro earlier old last new conflict
    rw [List.mem_singleton.mp new] at conflict ⊢
    exact mine.later earlier old conflict
  · intro other op' here' ticket' now
    rcases inside_update now with ⟨_, impossible⟩ | ⟨different, before⟩
    · cases impossible
    · have kept := serialized.inside other op' here' ticket' before
      have noConflict : ¬(protocol.writes op = true ∨ protocol.writes op' = true) :=
        fun conflict => different (serialized.alone inside before conflict).symm
      -- Both read, so nobody has written since `base`.
      have reads : protocol.writes op' = false :=
        eq_false_of_ne_true fun writes => noConflict (.inr writes)
      have free : config.lock.writer = none := serialized.sound.writer_none (reads ▸ kept.holds)
      have reached := kept.reached
      rw [← serialized.settled free] at reached
      refine ⟨reached, kept.exclusive, kept.holds.drop different, kept.recent, ?_⟩
      intro entry member conflict
      rcases List.mem_append.mp member with old | new
      · exact kept.later entry old conflict
      · rw [List.mem_singleton.mp new] at conflict
        exact absurd conflict noConflict

/-- **Every step keeps the completed operations serial.** -/
theorem Serialized.step (serialized : Serialized protocol start base config)
    (performed : Performed protocol config next) : ∃ base, Serialized protocol start base next := by
  cases performed with
  | request thread op idle => exact ⟨base, serialized.request thread op⟩
  | acquire thread op waiting admits => exact ⟨base, serialized.acquire thread admits⟩
  | work thread op here ticket inside unfinished => exact ⟨base, serialized.work inside unfinished⟩
  | release thread op here ticket result inside finished =>
      exact ⟨config.shared, serialized.release inside finished⟩

/-- **Every interleaving is serial.** -/
theorem Config.serialized {moves : List (Move Thread Op)}
    (serialized : Serialized protocol start base config)
    (ran : config.run protocol moves = some next) :
    ∃ base, Serialized protocol start base next := by
  induction moves generalizing config base with
  | nil =>
      cases ran
      exact ⟨base, serialized⟩
  | cons move moves ih =>
      obtain ⟨middle, possible, rest⟩ := Option.bind_eq_some_iff.mp ran
      obtain ⟨base, kept⟩ := serialized.step (performed_of_perform possible)
      exact ih kept rest

/-- Only threads inside hold the lock, and each of them once. -/
structure Held (config : Config Thread Op Local Shared Result) : Prop where
  inside : ∀ thread exclusive, config.lock.Holds thread exclusive →
    ∃ op here ticket, config.activity thread = .inside op here ticket
  once : config.lock.readers.Nodup
  sound : config.lock.Sound

namespace Held

omit [DecidableEq Thread] in
/-- Nobody holds the lock in the beginning. -/
theorem initial : Held (Config.initial start : Config Thread Op Local Shared Result) where
  inside := by
    intro thread exclusive holds
    cases exclusive <;> cases holds
  once := List.nodup_nil
  sound := .inl rfl

/-- A thread that is not inside takes the lock. -/
theorem take (held : Held config) {thread : Thread} {exclusive : Bool} {op : Op} {here : Local}
    {ticket clock : Nat}
    (outside : ∀ op here ticket, config.activity thread ≠ .inside op here ticket)
    (admits : config.lock.Admits exclusive) :
    Held
      { config with
        activity := Function.update config.activity thread (.inside op here ticket)
        lock := config.lock.take thread exclusive
        clock := clock } where
  inside := by
    intro other others holds
    by_cases same : other = thread
    · exact ⟨op, here, ticket, by rw [same]; exact Function.update_self _ _ _⟩
    · dsimp only
      rw [Function.update_of_ne same]
      refine held.inside other others ?_
      cases exclusive with
      | true =>
          cases others with
          | true => exact absurd (Option.some.inj holds).symm same
          | false => exact holds
      | false =>
          cases others with
          | true => exact holds
          | false => exact (List.mem_cons.mp holds).resolve_left same
  once := by
    cases exclusive with
    | true => exact held.once
    | false =>
        refine List.nodup_cons.mpr ⟨fun member => ?_, held.once⟩
        obtain ⟨op, here, ticket, inside⟩ := held.inside thread false member
        exact outside op here ticket inside
  sound := admits.sound

/-- A thread gives the lock back. -/
theorem drop (held : Held config) (thread : Thread) (log : List (Completed Thread Op Result)) :
    Held
      { config with
        activity := Function.update config.activity thread .idle
        lock := config.lock.drop thread
        log := log } where
  inside := by
    intro other others holds
    have kept : other ≠ thread ∧ config.lock.Holds other others := by
      simp only [RwLock.drop] at holds
      split at holds
      · next writes =>
          -- A writer is alone.
          have alone := held.sound.resolve_left (by rw [writes]; exact Option.some_ne_none thread)
          cases others with
          | true => cases holds
          | false =>
              have member : other ∈ config.lock.readers := holds
              rw [alone] at member
              cases member
      · next reads =>
          cases others with
          | true => exact ⟨fun same => reads (same ▸ holds), holds⟩
          | false =>
              have member := held.once.mem_erase_iff.mp holds
              exact member
    dsimp only
    rw [Function.update_of_ne kept.1]
    exact held.inside other others kept.2
  once := by
    simp only [RwLock.drop]
    split
    · exact held.once
    · exact held.once.erase thread
  sound := held.sound.drop

/-- Every step keeps the lock with those that hold it. -/
theorem step (held : Held config) (performed : Performed protocol config next) : Held next := by
  cases performed with
  | request thread op idle =>
      refine ⟨fun other others holds => ?_, held.once, held.sound⟩
      obtain ⟨op, here, ticket, inside⟩ := held.inside other others holds
      have different : other ≠ thread := by
        rintro rfl
        cases idle.symm.trans inside
      exact ⟨op, here, ticket, (Function.update_of_ne different _ _).trans inside⟩
  | acquire thread op waiting admits =>
      refine held.take (fun op here ticket inside => ?_) admits
      cases waiting.symm.trans inside
  | work thread op here ticket inside unfinished =>
      refine ⟨fun other others holds => ?_, held.once, held.sound⟩
      by_cases same : other = thread
      · exact ⟨op, _, ticket, by rw [same]; exact Function.update_self _ _ _⟩
      · obtain ⟨op, here, ticket, inside⟩ := held.inside other others holds
        exact ⟨op, here, ticket, (Function.update_of_ne same _ _).trans inside⟩
  | release thread op here ticket result inside finished => exact held.drop thread _

/-- A thread inside works or gives the lock back. -/
theorem inside_goesOn {thread : Thread} {op : Op} {here : Local} {ticket : Nat}
    (inside : config.activity thread = .inside op here ticket) :
    (config.perform protocol (.work thread)).isSome ∨
      (config.perform protocol (.release thread)).isSome := by
  cases result : protocol.result here with
  | none =>
      refine .inl ?_
      simp only [Config.perform, inside, result, Option.isSome_some]
  | some result' =>
      refine .inr ?_
      simp only [Config.perform, inside, result, Option.isSome_some]

variable (protocol) in
/-- **No deadlock.** While a thread wants the lock or has it, some such thread can go on. -/
theorem goesOn (held : Held config) {thread : Thread} (busy : config.activity thread ≠ .idle) :
    ∃ other, config.activity other ≠ .idle ∧
      ((config.perform protocol (.acquire other)).isSome ∨
        (config.perform protocol (.work other)).isSome ∨
        (config.perform protocol (.release other)).isSome) := by
  have holder : ∀ other exclusive, config.lock.Holds other exclusive →
      ∃ other, config.activity other ≠ .idle ∧
        ((config.perform protocol (.acquire other)).isSome ∨
          (config.perform protocol (.work other)).isSome ∨
          (config.perform protocol (.release other)).isSome) := by
    intro other exclusive holds
    obtain ⟨op, here, ticket, inside⟩ := held.inside other exclusive holds
    exact ⟨other, by rw [inside]; exact nofun, .inr (inside_goesOn inside)⟩
  cases place : config.activity thread with
  | idle => exact absurd place busy
  | inside op here ticket => exact ⟨thread, busy, .inr (inside_goesOn place)⟩
  | waiting op =>
      by_cases admits : config.lock.Admits (protocol.exclusive (protocol.start op))
      · refine ⟨thread, busy, .inl ?_⟩
        simp only [Config.perform, place, admits, ↓reduceIte, Option.isSome_some]
      · rcases writer : config.lock.writer with _ | other
        · rcases readers : config.lock.readers with _ | ⟨other, others⟩
          · exact absurd ⟨writer, fun _ => readers⟩ admits
          · refine holder other false ?_
            change other ∈ config.lock.readers
            rw [readers]
            exact List.mem_cons_self
        · exact holder other true writer

end Held

end Interleavings

end MiniDbms.Foundation
