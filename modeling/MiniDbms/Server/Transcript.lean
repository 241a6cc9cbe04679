import MiniDbms.Server.Ownership

/-! # Transcripts of the server

A transcript keeps, beside the state of the server, what each worker has read and which call on
the engine it has made, and all responses so far with what led to them. It decides nothing: the
server makes the same moves without it (`MiniDbms.Server.Transcript.exists_of_reaches`).
-/

namespace MiniDbms.Server

open Foundation Util Db Sql Http

/-- What a worker has done in its call of `handle_client`. -/
structure Visit where
  /-- The number of responses made before the request was read; while it is being read, before
  the call. -/
  before : Nat
  /-- The answers of `recv`. -/
  answers : List Recv
  /-- The allocator when the request was read. -/
  routed : Option Heap
  /-- The position of the call among the completed ones, and the allocator after it. -/
  call : Option (Nat × Heap)

/-- What the answers of `recv` come to. -/
def Visit.reading (visit : Visit) : Reading := visit.answers.foldl Reading.receive (.headers [])

/-- A response, and what led to it. -/
structure Exchange (threadCount : Nat) where
  worker : Fin threadCount
  socket : Socket
  visit : Visit
  response : HttpResponse

structure Transcript (threadCount : Nat) where
  state : ServerState threadCount
  visits : Fin threadCount → Option Visit
  exchanges : List (Exchange threadCount)
  /-- The statements of the completed calls. -/
  statements : List SqlStatement

variable {threadCount : Nat}

namespace Transcript

def initial (state : ServerState threadCount) : Transcript threadCount where
  state := state
  visits _ := none
  exchanges := []
  statements := []

/-- Something changes that a worker has done. -/
def change (transcript : Transcript threadCount) (index : Fin threadCount)
    (update : Visit → Visit) : Transcript threadCount :=
  { transcript with
    visits := Function.update transcript.visits index ((transcript.visits index).map update) }

/-- A worker's call on the engine is completed. -/
def complete (transcript : Transcript threadCount) (index : Fin threadCount) (heap : Heap) :
    Option Client → Transcript threadCount
  | some { socket := _, stage := .executing stmt } =>
      { transcript.change index fun visit =>
          { visit with call := some (transcript.statements.length, heap) } with
        statements := transcript.statements ++ [stmt] }
  | _ => transcript

/-- A worker makes its response. -/
def respond (transcript : Transcript threadCount) (index : Fin threadCount) :
    Option Client → Option Visit → Transcript threadCount
  | some { socket := socket, stage := .responding response }, some visit =>
      { transcript with
        exchanges := transcript.exchanges ++
          [{ worker := index, socket := socket, visit := visit, response := response }] }
  | _, _ => transcript

/-- What is recorded of a step of a worker. -/
def recordClient (transcript : Transcript threadCount) (index : Fin threadCount) :
    ClientMove → Transcript threadCount
  | .begin =>
      { transcript with
        visits := Function.update transcript.visits index
          (some
            { before := transcript.exchanges.length
              answers := []
              routed := none
              call := none }) }
  | .recv answer =>
      transcript.change index fun visit => { visit with answers := visit.answers ++ [answer] }
  | .route heap =>
      transcript.change index fun visit =>
        { visit with routed := some heap, before := transcript.exchanges.length }
  | .engine (.release heap) => transcript.complete index heap (transcript.state.clients index)
  | .respond => transcript.respond index (transcript.state.clients index) (transcript.visits index)
  | .engine _ | .send | .sent | .close | .returns => transcript

/-- What is recorded of a move. -/
def record (transcript : Transcript threadCount) :
    ServerMove threadCount → Transcript threadCount
  | .client index move => transcript.recordClient index move
  | _ => transcript

/-- The server moves, and the move is recorded. -/
def perform (transcript : Transcript threadCount) (move : ServerMove threadCount) :
    Option (Transcript threadCount) :=
  (transcript.state.perform move).map fun next => { transcript.record move with state := next }

/-- **Every run has its transcript.** -/
theorem exists_of_reaches {initial state : ServerState threadCount}
    (reached : Reaches ServerState.perform initial state) :
    ∃ transcript, Reaches perform (Transcript.initial initial) transcript ∧
      transcript.state = state := by
  induction reached with
  | refl => exact ⟨.initial initial, .refl, rfl⟩
  | @tail middle final _ last ih =>
      obtain ⟨transcript, reached, rfl⟩ := ih
      obtain ⟨move, performed⟩ := last
      refine ⟨{ transcript.record move with state := final }, reached.tail ⟨move, ?_⟩, rfl⟩
      rw [perform, performed]
      rfl

/-- The states of a transcript's run are those of a run of the server. -/
theorem reaches_state {start transcript : Transcript threadCount}
    (reached : Reaches perform start transcript) :
    Reaches ServerState.perform start.state transcript.state := by
  induction reached with
  | refl => exact .refl
  | tail _ last ih =>
      obtain ⟨move, performed⟩ := last
      obtain ⟨next, moved, rfl⟩ := Option.map_eq_some_iff.mp performed
      exact ih.tail ⟨move, moved⟩

end Transcript

end MiniDbms.Server
