import Mathlib.Algebra.Group.Nat.Defs
import Mathlib.Order.Basic
import Mathlib.Tactic.Common

/-! # Allocation that may fail

The C allocator seen from one computation: requests are numbered as they are
made, an oracle says which of them are granted, and a refused request is
remembered. Nothing bounds the number of requests, but none above
`PTRDIFF_MAX` bytes is ever granted.

`MiniDbms.Foundation.Attempt.Yields` is the specification of such a computation:
it gives up only because a request was refused, and what it returns otherwise
satisfies the postcondition. A computation all of whose requests were granted
therefore returns (`MiniDbms.Foundation.Attempt.Yields.result`).
`MiniDbms.Foundation.Attempt.Granted` only says what comes of a computation all of
whose requests were granted, for code that carries on after a refusal.
-/

namespace MiniDbms.Foundation

/-- `SIZE_MAX` with a 64-bit `size_t`. -/
def sizeMax : Nat := 2 ^ 64 - 1

/-- `PTRDIFF_MAX`, the largest size of an object. -/
def ptrdiffMax : Nat := 2 ^ 63 - 1

theorem double_pos {size : Nat} (positive : 0 < size) : 0 < size * 2 := by omega

structure Heap where
  /-- Whether the request of this number is granted. -/
  grants : Nat → Bool
  requests : Nat
  refused : Bool

namespace Heap

/-- Every request up to `PTRDIFF_MAX` is granted. -/
def generous : Heap := { grants := fun _ => true, requests := 0, refused := false }

/-- `malloc`, `calloc` and `realloc`: the answer is whether memory was returned. -/
def request (heap : Heap) (size : Nat) : Bool × Heap :=
  let granted := heap.grants heap.requests && decide (size ≤ ptrdiffMax)
  (granted, { heap with
    requests := heap.requests + 1
    refused := heap.refused || !granted })

theorem request_refused (heap : Heap) (size : Nat) :
    (heap.request size).2.refused = (heap.refused || !(heap.request size).1) := rfl

theorem le_of_request {heap : Heap} {size : Nat} (granted : (heap.request size).1 = true) :
    size ≤ ptrdiffMax := by
  simp only [request, Bool.and_eq_true, decide_eq_true_eq] at granted
  exact granted.2

/-- The allocator with no refusal on record. -/
def fresh (heap : Heap) : Heap := { heap with refused := false }

/-- The allocator with one more refusal on record, if there was one. -/
def noting (heap : Heap) (refusal : Bool) : Heap :=
  { heap with refused := heap.refused || refusal }

theorem fresh_noting (heap : Heap) : heap.fresh.noting heap.refused = heap := rfl

/-- What is granted does not depend on the record. -/
theorem request_noting (heap : Heap) (refusal : Bool) (size : Nat) :
    (heap.noting refusal).request size =
      ((heap.request size).1, (heap.request size).2.noting refusal) := by
  simp only [request, noting, Bool.or_right_comm]

end Heap

/-- A computation that requests memory and may give up with an error. -/
def Attempt (ε α : Type) : Type := Heap → Except ε α × Heap

/-- A computation that returns a null pointer or a zero when it gives up. -/
abbrev Alloc (α : Type) : Type := Attempt Unit α

namespace Attempt

variable {ε α β : Type}

instance : Monad (Attempt ε) where
  pure a := fun heap => (.ok a, heap)
  bind action next := fun heap =>
    match action heap with
    | (.ok a, heap) => next a heap
    | (.error e, heap) => (.error e, heap)

theorem bind_apply (action : Attempt ε α) (next : α → Attempt ε β) (heap : Heap) :
    (action >>= next) heap = match action heap with
      | (.ok a, heap) => next a heap
      | (.error e, heap) => (.error e, heap) := rfl

/-- How actions are grouped does not matter. -/
theorem bind_assoc {γ : Type} (action : Attempt ε α) (next : α → Attempt ε β)
    (last : β → Attempt ε γ) :
    action >>= next >>= last = action >>= fun a => next a >>= last := by
  funext heap
  simp only [bind_apply]
  rcases action heap with ⟨_ | a, after⟩ <;> rfl

/-- A computation that returned went through both its parts. -/
theorem ok_of_bind {action : Attempt ε α} {next : α → Attempt ε β} {heap : Heap} {b : β}
    (returned : ((action >>= next) heap).1 = .ok b) :
    ∃ a after, action heap = (.ok a, after) ∧ (next a after).1 = .ok b := by
  rw [bind_apply] at returned
  rcases ran : action heap with ⟨_ | a, after⟩ <;> rw [ran] at returned
  · cases returned
  · exact ⟨a, after, rfl, returned⟩

/-- Request `size` bytes. -/
def malloc (size : Nat) : Alloc Unit := fun heap =>
  match heap.request size with
  | (true, heap) => (.ok (), heap)
  | (false, heap) => (.error (), heap)

/-- Give up. -/
def fail (error : ε) : Attempt ε α := fun heap => (.error error, heap)

/-- The error to report when `action` gives up. -/
def orError (action : Alloc α) (error : ε) : Attempt ε α := fun heap =>
  match action heap with
  | (.ok a, heap) => (.ok a, heap)
  | (.error (), heap) => (.error error, heap)

/-- What returns in spite of an error message has returned. -/
theorem ok_of_orError {action : Alloc α} {error : ε} {heap after : Heap} {a : α}
    (returned : action.orError error heap = (.ok a, after)) : action heap = (.ok a, after) := by
  unfold orError at returned
  rcases ran : action heap with ⟨_ | b, final⟩ <;> rw [ran] at returned
  · cases returned
  · cases returned
    rfl

/-- What may come of a computation started on `heap`: a result that satisfies
`post`, with any earlier refusal still on record, or none after a refusal. -/
def Accounted (heap : Heap) (post : α → Prop) : Except ε α × Heap → Prop
  | (.ok a, after) => (heap.refused = true → after.refused = true) ∧ post a
  | (.error _, after) => after.refused = true

/-- Every outcome is accounted for: a result satisfies `post`, and the
computation gives up only after a refused request. -/
def Yields (action : Attempt ε α) (post : α → Prop) : Prop :=
  ∀ heap, Accounted heap post (action heap)

theorem Yields.pure {post : α → Prop} {a : α} (holds : post a) :
    Yields (Pure.pure a : Attempt ε α) post :=
  fun _ => ⟨id, holds⟩

/-- What is yielded may be told more weakly. -/
theorem Yields.mono {action : Attempt ε α} {post weaker : α → Prop} (spec : Yields action post)
    (implied : ∀ a, post a → weaker a) : Yields action weaker := by
  intro heap
  have outcome := spec heap
  rcases ran : action heap with ⟨_ | a, after⟩ <;> rw [ran] at outcome
  · exact outcome
  · exact ⟨outcome.1, implied a outcome.2⟩

/-- What the first action yields goes into the second one. -/
theorem Yields.bind {action : Attempt ε α} {next : α → Attempt ε β} {middle : α → Prop}
    {post : β → Prop} (first : Yields action middle) (rest : ∀ a, middle a → Yields (next a) post) :
    Yields (action >>= next) post := by
  intro heap
  have outcome := first heap
  change Accounted heap post (match action heap with
    | (.ok a, heap) => next a heap
    | (.error e, heap) => (.error e, heap))
  rcases ran : action heap with ⟨_ | a, after⟩ <;> rw [ran] at outcome
  · exact outcome
  · have continued := rest a outcome.2 after
    change Accounted heap post (next a after)
    rcases ranOn : next a after with ⟨_ | b, final⟩ <;> rw [ranOn] at continued
    · exact continued
    · exact ⟨fun before => continued.1 (outcome.1 before), continued.2⟩

/-- A block that is yielded is not larger than an object can be. -/
theorem Yields.malloc (size : Nat) : Yields (malloc size) fun _ => size ≤ ptrdiffMax := by
  intro heap
  have remembered := heap.request_refused size
  have bounded := @Heap.le_of_request heap size
  unfold Attempt.malloc
  rcases answer : heap.request size with ⟨_ | _, after⟩ <;> rw [answer] at remembered bounded
  · simpa only [Accounted, Bool.not_false, Bool.or_true] using remembered
  · simp only [Bool.not_true, Bool.or_false] at remembered
    exact ⟨fun before => remembered ▸ before, bounded rfl⟩

/-- An error message does not change what is yielded. -/
theorem Yields.orError {action : Alloc α} {post : α → Prop} (spec : Yields action post)
    (error : ε) :
    Yields (action.orError error) post := by
  intro heap
  have outcome := spec heap
  unfold Attempt.orError
  rcases ran : action heap with ⟨_ | a, after⟩ <;> rw [ran] at outcome <;> exact outcome

/-- A computation whose requests were all granted returns. -/
theorem Yields.result {action : Attempt ε α} {post : α → Prop} (spec : Yields action post)
    {heap : Heap} (granted : (action heap).2.refused = false) :
    heap.refused = false ∧ ∃ a, (action heap).1 = .ok a ∧ post a := by
  have outcome := spec heap
  rcases returned : action heap with ⟨_ | a, after⟩ <;> rw [returned] at outcome granted
  · exact nomatch outcome.symm.trans granted
  · refine ⟨?_, a, rfl, outcome.2⟩
    cases before : heap.refused with
    | false => rfl
    | true => exact (outcome.1 before).symm.trans granted

/-- An earlier refusal stays on record. -/
def Sticky (action : Attempt ε α) : Prop :=
  ∀ heap, (action heap).2.refused = false → heap.refused = false

/-- When every request was granted, the outcome satisfies `post`. -/
def Granted (action : Attempt ε α) (post : Except ε α → Prop) : Prop :=
  ∀ heap, (action heap).2.refused = false → post (action heap).1

/-- The computation returned a result that satisfies `post`. -/
def Returned (post : α → Prop) (outcome : Except ε α) : Prop := ∃ a, outcome = .ok a ∧ post a

theorem Yields.sticky {action : Attempt ε α} {post : α → Prop} (spec : Yields action post) :
    Sticky action :=
  fun _ granted => (spec.result granted).1

theorem Yields.granted {action : Attempt ε α} {post : α → Prop} (spec : Yields action post) :
    Granted action (Returned post) :=
  fun _ granted => (spec.result granted).2

theorem Sticky.pure (a : α) : Sticky (Pure.pure a : Attempt ε α) := fun _ => id

theorem Sticky.fail (error : ε) : Sticky (fail error : Attempt ε α) := fun _ => id

/-- Two actions keep a refusal noted when each does. -/
theorem Sticky.bind {action : Attempt ε α} {next : α → Attempt ε β} (first : Sticky action)
    (rest : ∀ a, Sticky (next a)) : Sticky (action >>= next) := by
  intro heap granted
  change (match action heap with
    | (.ok a, heap) => next a heap
    | (.error e, heap) => (.error e, heap)).2.refused = false at granted
  apply first heap
  rcases ran : action heap with ⟨_ | a, after⟩ <;> rw [ran] at granted
  · exact granted
  · exact rest a after granted

/-- An error message does not matter for that. -/
theorem Sticky.orError {action : Alloc α} (sticky : Sticky action) (error : ε) :
    Sticky (action.orError error) := by
  intro heap granted
  apply sticky heap
  unfold Attempt.orError at granted
  rcases ran : action heap with ⟨_ | a, after⟩ <;> rw [ran] at granted <;> exact granted

theorem Granted.pure {post : Except ε α → Prop} {a : α} (holds : post (.ok a)) :
    Granted (Pure.pure a : Attempt ε α) post :=
  fun _ _ => holds

/-- What the first action returns when nothing is refused goes into the second one. -/
theorem Granted.bind {action : Attempt ε α} {next : α → Attempt ε β} {middle : α → Prop}
    {post : Except ε β → Prop} (first : Granted action (Returned middle))
    (sticky : ∀ a, Sticky (next a)) (rest : ∀ a, middle a → Granted (next a) post) :
    Granted (action >>= next) post := by
  intro heap granted
  change (match action heap with
    | (.ok a, heap) => next a heap
    | (.error e, heap) => (.error e, heap)).2.refused = false at granted
  change post (match action heap with
    | (.ok a, heap) => next a heap
    | (.error e, heap) => (.error e, heap)).1
  have outcome := first heap
  rcases ran : action heap with ⟨_ | a, after⟩ <;> rw [ran] at granted outcome
  · obtain ⟨_, impossible, _⟩ := outcome granted
    cases impossible
  · obtain ⟨_, same, holds⟩ := outcome (sticky a after granted)
    cases same
    exact rest a holds after granted

/-- An error message does not matter for what is returned. -/
theorem Granted.orError {action : Alloc α} {post : α → Prop}
    (spec : Granted action (Returned post)) (error : ε) :
    Granted (action.orError error) (Returned post) := by
  intro heap granted
  have outcome := spec heap
  unfold Attempt.orError at granted ⊢
  rcases ran : action heap with ⟨_ | a, after⟩ <;> rw [ran] at granted outcome
  · obtain ⟨_, impossible, _⟩ := outcome granted
    cases impossible
  · obtain ⟨b, same, holds⟩ := outcome granted
    cases same
    exact ⟨a, rfl, holds⟩

/-- The outcome does not depend on the refusals on record. -/
def Blind (action : Attempt ε α) : Prop :=
  ∀ heap refusal,
    action (heap.noting refusal) = ((action heap).1, (action heap).2.noting refusal)

/-- The outcome is that of the same allocator with nothing on record. -/
theorem Blind.fresh {action : Attempt ε α} (blind : Blind action) (heap : Heap) :
    (action heap.fresh).1 = (action heap).1 := by
  have noted := blind heap.fresh heap.refused
  rw [Heap.fresh_noting] at noted
  rw [noted]

theorem Blind.pure (a : α) : Blind (Pure.pure a : Attempt ε α) := fun _ _ => rfl

theorem Blind.fail (error : ε) : Blind (fail error : Attempt ε α) := fun _ _ => rfl

/-- The parts of a computation are blind together. -/
theorem Blind.bind {action : Attempt ε α} {next : α → Attempt ε β} (first : Blind action)
    (rest : ∀ a, Blind (next a)) : Blind (action >>= next) := by
  intro heap refusal
  rw [bind_apply, bind_apply, first heap refusal]
  rcases action heap with ⟨_ | a, after⟩
  · rfl
  · exact rest a after refusal

/-- A request does not depend on earlier refusals. -/
theorem Blind.malloc (size : Nat) : Blind (malloc size) := by
  intro heap refusal
  unfold Attempt.malloc
  rw [heap.request_noting refusal size]
  rcases heap.request size with ⟨_ | _, after⟩ <;> rfl

/-- An error message does not depend on them, either. -/
theorem Blind.orError {action : Alloc α} (blind : Blind action) (error : ε) :
    Blind (action.orError error) := by
  intro heap refusal
  unfold Attempt.orError
  rw [blind heap refusal]
  rcases action heap with ⟨_ | a, after⟩ <;> rfl

/-- Every error of the computation satisfies `good`. -/
def Fails (action : Attempt ε α) (good : ε → Prop) : Prop :=
  ∀ heap error after, action heap = (.error error, after) → good error

theorem Fails.pure {good : ε → Prop} (a : α) : Fails (Pure.pure a : Attempt ε α) good := by
  intro heap error after failed
  cases failed

/-- A message is the only error of an action that it is given to. -/
theorem Fails.orError {good : ε → Prop} (action : Alloc α) {error : ε} (holds : good error) :
    Fails (action.orError error) good := by
  intro heap reported after failed
  unfold Attempt.orError at failed
  rcases ran : action heap with ⟨_ | a, final⟩ <;> rw [ran] at failed <;> cases failed
  exact holds

/-- Two actions fail as each of them does. -/
theorem Fails.bind {good : ε → Prop} {action : Attempt ε α} {next : α → Attempt ε β}
    (first : Fails action good) (rest : ∀ a, Fails (next a) good) :
    Fails (action >>= next) good := by
  intro heap error after failed
  rw [bind_apply] at failed
  rcases ran : action heap with ⟨_ | a, middle⟩ <;> rw [ran] at failed
  · cases failed
    exact first heap _ _ ran
  · exact rest a middle error after failed

end Attempt

end MiniDbms.Foundation
