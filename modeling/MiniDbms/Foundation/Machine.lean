import Mathlib.Data.List.Forall2
import Mathlib.Logic.Relation

/-! # Machines that answer their inputs

A deterministic machine takes one input at a time and answers it. What every
step preserves, a run preserves (`MiniDbms.Foundation.Machine.run_invariant`), and
a machine whose steps another machine can follow gives the other machine's
answers (`MiniDbms.Foundation.Machine.run_simulates`). Both are relative to a
condition on the steps taken, such as that no resource ran out. For systems in which a
move may be impossible there is the same rule
(`MiniDbms.Foundation.Reaches.invariant`).
-/

namespace MiniDbms.Foundation

universe u v w

structure Machine (State : Type u) (Input : Type v) (Output : Type w) where
  step : State → Input → Output × State

namespace Machine

variable {State : Type u} {Input : Type v} {Output : Type w}

/-- The answers to a sequence of inputs and the state after it. -/
def run (machine : Machine State Input Output) : State → List Input → List Output × State
  | state, [] => ([], state)
  | state, input :: inputs =>
      let (output, next) := machine.step state input
      let (outputs, final) := machine.run next inputs
      (output :: outputs, final)

/-- Every step of the run meets the condition, which is about the state before
the step and its input. -/
def Meets (machine : Machine State Input Output) (condition : State → Input → Prop) :
    State → List Input → Prop
  | _, [] => True
  | state, input :: inputs =>
      condition state input ∧ machine.Meets condition (machine.step state input).2 inputs

instance decidableMeets (machine : Machine State Input Output) (condition : State → Input → Prop)
    [∀ state input, Decidable (condition state input)] :
    ∀ state inputs, Decidable (machine.Meets condition state inputs)
  | _, [] => .isTrue trivial
  | state, input :: inputs =>
      have := decidableMeets machine condition (machine.step state input).2 inputs
      inferInstanceAs (Decidable (condition state input ∧ machine.Meets condition _ inputs))

variable (machine : Machine State Input Output) {condition : State → Input → Prop}

theorem run_cons (state : State) (input : Input) (inputs : List Input) :
    machine.run state (input :: inputs) =
      ((machine.step state input).1 :: (machine.run (machine.step state input).2 inputs).1,
        (machine.run (machine.step state input).2 inputs).2) := rfl

/-- One run after the other. -/
theorem run_append (state : State) (first second : List Input) :
    machine.run state (first ++ second) =
      ((machine.run state first).1 ++ (machine.run (machine.run state first).2 second).1,
        (machine.run (machine.run state first).2 second).2) := by
  induction first generalizing state with
  | nil => rfl
  | cons input first ih => simp only [List.cons_append, run_cons, ih]

section Meets

variable {machine}

/-- A condition on two runs, one after the other. -/
theorem Meets.append_iff {state : State} {first second : List Input} :
    machine.Meets condition state (first ++ second) ↔
      machine.Meets condition state first ∧
        machine.Meets condition (machine.run state first).2 second := by
  induction first generalizing state with
  | nil => exact (and_iff_right trivial).symm
  | cons input first ih => simp only [List.cons_append, Meets, run_cons, ih, and_assoc]

/-- Two conditions that are met are met together. -/
theorem Meets.and {other : State → Input → Prop} {state : State} {inputs : List Input}
    (left : machine.Meets condition state inputs) (right : machine.Meets other state inputs) :
    machine.Meets (fun state input => condition state input ∧ other state input) state inputs := by
  induction inputs generalizing state with
  | nil => trivial
  | cons input inputs ih => exact ⟨⟨left.1, right.1⟩, ih left.2 right.2⟩

/-- A condition on the inputs alone. -/
theorem meets_of_forall {good : Input → Prop} {inputs : List Input}
    (all : ∀ input ∈ inputs, good input) (state : State) :
    machine.Meets (fun _ input => good input) state inputs := by
  induction inputs generalizing state with
  | nil => trivial
  | cons input inputs ih =>
      obtain ⟨first, others⟩ := List.forall_mem_cons.mp all
      exact ⟨first, ih others _⟩

end Meets

/-- **What every step preserves, a run preserves.** -/
theorem run_invariant (invariant : State → Prop) {state : State} {inputs : List Input}
    (step : ∀ state input, invariant state → condition state input →
      invariant (machine.step state input).2)
    (initially : invariant state) (meets : machine.Meets condition state inputs) :
    invariant (machine.run state inputs).2 := by
  induction inputs generalizing state with
  | nil => exact initially
  | cons input inputs ih => exact ih (step state input initially meets.1) meets.2

/-- What holds of the answer of every step holds of all answers of a run. -/
theorem run_outputs (invariant : State → Prop) {good : Output → Prop} {state : State}
    {inputs : List Input}
    (step : ∀ state input, invariant state → condition state input →
      good (machine.step state input).1 ∧ invariant (machine.step state input).2)
    (initially : invariant state) (meets : machine.Meets condition state inputs) :
    ∀ output ∈ (machine.run state inputs).1, good output := by
  induction inputs generalizing state with
  | nil => exact nofun
  | cons input inputs ih =>
      intro output member
      obtain ⟨first, next⟩ := step state input initially meets.1
      rcases List.mem_cons.mp member with rfl | later
      · exact first
      · exact ih next meets.2 output later

/-- What each step establishes about its input and answer, and no later step undoes,
holds at the end of the run of all inputs and answers. -/
theorem run_established (invariant : State → Prop) (fact : Input → Output → State → Prop)
    (step : ∀ state input, invariant state → condition state input →
      invariant (machine.step state input).2 ∧
        fact input (machine.step state input).1 (machine.step state input).2)
    (lasting : ∀ state input earlier output, fact earlier output state →
      fact earlier output (machine.step state input).2)
    {state : State} {inputs : List Input} (initially : invariant state)
    (meets : machine.Meets condition state inputs) :
    ∀ entry ∈ inputs.zip (machine.run state inputs).1,
      fact entry.1 entry.2 (machine.run state inputs).2 := by
  have last : ∀ (rest : List Input) (start : State) (input : Input) (output : Output),
      fact input output start → fact input output (machine.run start rest).2 := by
    intro rest
    induction rest with
    | nil => exact fun _ _ _ => id
    | cons next rest ih =>
        intro start input output holds
        exact ih _ input output (lasting start next input output holds)
  induction inputs generalizing state with
  | nil => exact nofun
  | cons input inputs ih =>
      intro entry member
      obtain ⟨kept, holds⟩ := step state input initially meets.1
      rcases List.mem_cons.mp member with rfl | later
      · exact last inputs _ _ _ holds
      · exact ih kept meets.2 entry later

/-- Suppose that a step keeps the invariant when it meets `good`, and otherwise
loses a property which no later step restores. Then the run keeps the property
exactly when all its steps meet `good`. -/
theorem run_good_iff (invariant property : State → Prop) {good : State → Input → Prop}
    (holds : ∀ state, invariant state → property state)
    (keeps : ∀ state input, invariant state → condition state input → good state input →
      invariant (machine.step state input).2)
    (loses : ∀ state input, invariant state → condition state input → ¬good state input →
      ¬property (machine.step state input).2)
    (lost : ∀ state input, ¬property state → ¬property (machine.step state input).2)
    {state : State} {inputs : List Input} (initially : invariant state)
    (meets : machine.Meets condition state inputs) :
    property (machine.run state inputs).2 ↔ machine.Meets good state inputs := by
  induction inputs generalizing state with
  | nil => exact iff_of_true (holds state initially) trivial
  | cons input inputs ih =>
      rw [run_cons]
      by_cases follows : good state input
      · exact (ih (keeps state input initially meets.1 follows) meets.2).trans
          (and_iff_right follows).symm
      · have gone : ∀ (rest : List Input) (start : State), ¬property start →
            ¬property (machine.run start rest).2 := by
          intro rest
          induction rest with
          | nil => exact fun _ => id
          | cons next rest inner =>
              intro start absent
              exact inner _ (lost start next absent)
        exact iff_of_false
          (gone inputs _ (loses state input initially meets.1 follows))
          fun all => follows all.1

section Simulation

variable {State' : Type u} {Input' : Type v} {Output' : Type w}

/-- **Simulation.** `view` names the input the other machine takes in place of an
input, if it takes one at all, and `shown` what an answer looks like to it. When
each step keeps the two states related and its answer looks like the other's, a
run gives the other machine's answers. -/
theorem run_simulates (other : Machine State' Input' Output') (related : State → State' → Prop)
    (view : Input → Option Input') (shown : Output → Option Output')
    (hidden : ∀ state state' input, related state state' → condition state input →
      view input = none →
      shown (machine.step state input).1 = none ∧ related (machine.step state input).2 state')
    (visible : ∀ state state' input input', related state state' → condition state input →
      view input = some input' →
      shown (machine.step state input).1 = some (other.step state' input').1 ∧
        related (machine.step state input).2 (other.step state' input').2)
    {state : State} {state' : State'} {inputs : List Input} (initially : related state state')
    (meets : machine.Meets condition state inputs) :
    (machine.run state inputs).1.filterMap shown =
        (other.run state' (inputs.filterMap view)).1 ∧
      related (machine.run state inputs).2 (other.run state' (inputs.filterMap view)).2 := by
  induction inputs generalizing state state' with
  | nil => exact ⟨rfl, initially⟩
  | cons input inputs ih =>
      cases seen : view input with
      | none =>
          obtain ⟨silent, kept⟩ := hidden state state' input initially meets.1 seen
          rw [run_cons, List.filterMap_cons_none silent, List.filterMap_cons_none seen]
          exact ih kept meets.2
      | some input' =>
          obtain ⟨answered, kept⟩ := visible state state' input input' initially meets.1 seen
          obtain ⟨outputs, final⟩ := ih kept meets.2
          rw [run_cons, List.filterMap_cons_some answered, List.filterMap_cons_some seen, run_cons,
            outputs]
          exact ⟨rfl, final⟩

/-- A run whose every step the other machine follows, up to a relation between the
answers. -/
theorem run_refines (other : Machine State' Input' Output') (related : State → State' → Prop)
    (view : Input → Input') (agree : Output → Output' → Prop)
    (step : ∀ state state' input, related state state' → condition state input →
      agree (machine.step state input).1 (other.step state' (view input)).1 ∧
        related (machine.step state input).2 (other.step state' (view input)).2)
    {state : State} {state' : State'} {inputs : List Input} (initially : related state state')
    (meets : machine.Meets condition state inputs) :
    List.Forall₂ agree (machine.run state inputs).1 (other.run state' (inputs.map view)).1 ∧
      related (machine.run state inputs).2 (other.run state' (inputs.map view)).2 := by
  induction inputs generalizing state state' with
  | nil => exact ⟨.nil, initially⟩
  | cons input inputs ih =>
      obtain ⟨agrees, kept⟩ := step state state' input initially meets.1
      obtain ⟨outputs, final⟩ := ih kept meets.2
      exact ⟨.cons agrees outputs, final⟩

end Simulation

end Machine

section Steps

variable {State : Type u} {Move : Type v} {perform : State → Move → Option State}

/-- Some moves lead from one state to the other. -/
def Reaches (perform : State → Move → Option State) : State → State → Prop :=
  Relation.ReflTransGen fun state next => ∃ move, perform state move = some next

/-- **What every move preserves** holds in every state that is reached. -/
theorem Reaches.invariant {initial state : State} (reached : Reaches perform initial state)
    (invariant : State → Prop) (initially : invariant initial)
    (step : ∀ state move next, invariant state → perform state move = some next →
      invariant next) : invariant state := by
  induction reached with
  | refl => exact initially
  | tail _ last holds =>
      obtain ⟨move, performed⟩ := last
      exact step _ _ _ holds performed

/-- The state after a sequence of moves is reached. -/
theorem reaches_of_foldlM {moves : List Move} {state final : State}
    (performed : moves.foldlM perform state = some final) : Reaches perform state final := by
  induction moves generalizing state with
  | nil =>
      obtain rfl := Option.some.inj performed
      exact Relation.ReflTransGen.refl
  | cons move moves ih =>
      rw [List.foldlM_cons, Option.bind_eq_bind, Option.bind_eq_some_iff] at performed
      obtain ⟨next, first, others⟩ := performed
      exact (ih others).head ⟨move, first⟩

end Steps

end MiniDbms.Foundation
