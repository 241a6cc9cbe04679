import Mathlib.Algebra.BigOperators.Ring.Finset
import Mathlib.Algebra.Order.BigOperators.Group.Finset
import MiniDbms.Foundation.Monitor

/-! # Effort

A system makes only as many moves as it has effort to spend, when every move takes some
away and only few give any (`MiniDbms.Foundation.Potential.countP_le`). The effort may
depend on a limit for the size of the state, as long as the size is part of it.

In a monitor, a move takes effort from the thread that makes it; only returning operations
and threads that wake up give some to threads that wait
(`MiniDbms.Foundation.Monitor.Config.spends_of_perform`).
-/

namespace MiniDbms.Foundation

/-- A sum of which one summand changes. -/
theorem sum_change {Index : Type*} [Fintype Index] [DecidableEq Index]
    {before after : Index → Nat} {index : Index}
    (others : ∀ other ≠ index, after other = before other) :
    ∑ other, after other + before index = ∑ other, before other + after index := by
  have first := Finset.add_sum_erase _ after (Finset.mem_univ index)
  have second := Finset.add_sum_erase _ before (Finset.mem_univ index)
  have same : ∑ other ∈ Finset.univ.erase index, after other =
      ∑ other ∈ Finset.univ.erase index, before other :=
    Finset.sum_congr rfl fun other member => others other (Finset.ne_of_mem_erase member)
  omega

section Potential

variable {State Move : Type*} {perform : State → Move → Option State} {invariant : State → Prop}

/-- The effort of a state pays for its moves, as far as they do not pay for themselves. For
states that are not larger than a limit it also pays for counting some of the moves. -/
structure Potential (perform : State → Move → Option State) (invariant : State → Prop) where
  size : State → Nat
  effort : Nat → State → Nat
  paid : Nat → Move → Nat
  counts : Move → Bool
  bounds : ∀ state, size state ≤ effort 0 state
  keeps : ∀ state move next, invariant state → perform state move = some next → invariant next
  spends : ∀ limit state move next, invariant state → perform state move = some next →
    effort limit next + (if counts move = true ∧ size state ≤ limit then 1 else 0) ≤
      effort limit state + paid limit move

/-- **Only so many moves.** The limit is what the size cannot grow beyond. -/
theorem Potential.countP_le (potential : Potential perform invariant) {moves : List Move}
    {state final : State} (holds : invariant state) (ran : moves.foldlM perform state = some final)
    {limit : Nat}
    (enough : potential.effort 0 state + (moves.map (potential.paid 0)).sum ≤ limit) :
    moves.countP potential.counts ≤
      potential.effort limit state + (moves.map (potential.paid limit)).sum := by
  induction moves generalizing state with
  | nil => exact Nat.zero_le _
  | cons move moves ih =>
      rw [List.foldlM_cons, Option.bind_eq_bind, Option.bind_eq_some_iff] at ran
      obtain ⟨next, performed, others⟩ := ran
      rw [List.map_cons, List.sum_cons] at enough ⊢
      have small : potential.size state ≤ limit :=
        (potential.bounds state).trans ((Nat.le_add_right _ _).trans enough)
      have without := potential.spends 0 state move next holds performed
      have rest := ih (potential.keeps state move next holds performed) others (by omega)
      have spent := potential.spends limit state move next holds performed
      rw [List.countP_cons]
      split
      · next counted =>
          rw [if_pos ⟨counted, small⟩] at spent
          omega
      · omega

/-- A move that is counted and brings nothing. -/
def Potential.Free (potential : Potential perform invariant) (move : Move) : Prop :=
  potential.counts move = true ∧ ∀ limit, potential.paid limit move = 0

/-- **The end is reached.** When there is a free move until the end, the end is reached by free
moves. -/
theorem Potential.exists_end (potential : Potential perform invariant) {live final : State → Prop}
    (sound : ∀ state, live state → invariant state)
    (goesOn : ∀ state, live state → ¬ final state →
      ∃ move next, potential.Free move ∧ perform state move = some next ∧ live next)
    {state : State} (holds : live state) :
    ∃ (moves : List Move) (ending : State), moves.foldlM perform state = some ending ∧
      (∀ move ∈ moves, potential.Free move) ∧ live ending ∧ final ending := by
  -- The induction is on the effort, with what the effort is now as the limit for the size.
  suffices spending : ∀ effort limit state, live state → potential.effort 0 state ≤ limit →
      potential.effort limit state ≤ effort →
      ∃ (moves : List Move) (ending : State), moves.foldlM perform state = some ending ∧
        (∀ move ∈ moves, potential.Free move) ∧ live ending ∧ final ending from
    spending _ _ state holds le_rfl le_rfl
  intro effort limit
  induction effort with
  | zero =>
      intro state holds enough nothing
      by_cases ended : final state
      · exact ⟨[], state, rfl, List.forall_mem_nil _, holds, ended⟩
      · obtain ⟨move, next, free, performed, _⟩ := goesOn state holds ended
        have spent := potential.spends limit state move next (sound state holds) performed
        rw [if_pos ⟨free.1, (potential.bounds state).trans enough⟩, free.2] at spent
        omega
  | succ effort ih =>
      intro state holds enough most
      by_cases ended : final state
      · exact ⟨[], state, rfl, List.forall_mem_nil _, holds, ended⟩
      · obtain ⟨move, next, free, performed, lives⟩ := goesOn state holds ended
        have spent := potential.spends limit state move next (sound state holds) performed
        rw [if_pos ⟨free.1, (potential.bounds state).trans enough⟩, free.2] at spent
        have without := potential.spends 0 state move next (sound state holds) performed
        rw [free.2] at without
        obtain ⟨moves, ending, ran, frees, rest⟩ := ih next lives (by omega) (by omega)
        refine ⟨move :: moves, ending, ?_, List.forall_mem_cons.mpr ⟨free, frees⟩, rest⟩
        rw [List.foldlM_cons, performed]
        exact ran

end Potential

/-- How many of so many threads a notice can wake. -/
def Notice.reach (threads : Nat) : Notice → Nat
  | .silent => 0
  | .signal => 1
  | .broadcast => threads

/-- A notice wakes no more threads than it reaches. -/
theorem CondVar.card_woken_notify {Thread : Type} [DecidableEq Thread] [Fintype Thread]
    (cond : CondVar Thread) (notice : Notice) (chosen : Option Thread) :
    ((cond.notify notice chosen).woken \ cond.woken).card ≤
      notice.reach (Fintype.card Thread) := by
  cases notice with
  | silent => rw [CondVar.notify, Finset.sdiff_self, Finset.card_empty, Notice.reach]
  | broadcast => exact Finset.card_le_univ _
  | signal =>
      cases chosen with
      | none =>
          rw [CondVar.notify, Finset.sdiff_self, Finset.card_empty]
          exact Nat.zero_le _
      | some thread =>
          change (insert thread cond.woken \ cond.woken).card ≤ 1
          apply Finset.card_le_one.mpr
          intro one first two second
          rw [Finset.mem_sdiff, Finset.mem_insert] at first second
          exact (first.1.resolve_right first.2).trans (second.1.resolve_right second.2).symm

/-- Somebody can be notified, or nobody has to be. -/
theorem CondVar.exists_allows {Thread : Type} (cond : CondVar Thread) (notice : Notice) :
    ∃ chosen, cond.Allows notice chosen := by
  cases notice with
  | silent | broadcast => exact ⟨none, trivial⟩
  | signal =>
      rcases cond.waiting.eq_empty_or_nonempty with empty | ⟨thread, waits⟩
      · exact ⟨none, empty⟩
      · exact ⟨some thread, waits⟩

namespace Monitor

variable {Thread Op Cond Shared Result : Type}

/-- The move is that a thread wakes up. -/
def Move.wakes : Move Thread Cond → Bool
  | .wake _ => true
  | _ => false

namespace Config

variable (cost : Op → Nat)

/-- What a thread still has to do. A thread that waits has nothing to do but its operation,
one that has been woken takes the mutex and a turn. -/
def effortOf [DecidableEq Thread] (config : Config Thread Op Cond Shared Result)
    (thread : Thread) : Nat :=
  match config.activity thread with
  | .outside _ => 0
  | .locking op => cost op + 2
  | .inside op => cost op + 1
  | .asleep op on => cost op + if thread ∈ (config.conds on).woken then 2 else 0

def effort [DecidableEq Thread] [Fintype Thread] (config : Config Thread Op Cond Shared Result) :
    Nat :=
  ∑ thread, config.effortOf cost thread

variable {cost} [DecidableEq Thread] {monitor : Monitor Op Cond Shared Result}
  {assigned : Thread → Op → Prop} {config next : Config Thread Op Cond Shared Result}
  {thread : Thread} {op : Op} {on : Cond} {last : Option Result}

theorem effortOf_outside (outside : config.activity thread = .outside last) :
    config.effortOf cost thread = 0 := by
  rw [effortOf, outside]

theorem effortOf_locking (locking : config.activity thread = .locking op) :
    config.effortOf cost thread = cost op + 2 := by
  rw [effortOf, locking]

theorem effortOf_inside (inside : config.activity thread = .inside op) :
    config.effortOf cost thread = cost op + 1 := by
  rw [effortOf, inside]

theorem effortOf_woken (asleep : config.activity thread = .asleep op on)
    (woken : thread ∈ (config.conds on).woken) : config.effortOf cost thread = cost op + 2 := by
  rw [effortOf, asleep]
  exact congrArg _ (if_pos woken)

theorem effortOf_waiting (asleep : config.activity thread = .asleep op on)
    (waits : thread ∉ (config.conds on).woken) : config.effortOf cost thread = cost op := by
  rw [effortOf, asleep]
  exact congrArg _ (if_neg waits)

/-- What a thread has to do depends only on its own place. -/
theorem effortOf_congr (same : next.activity thread = config.activity thread)
    (woken : ∀ on, thread ∈ (next.conds on).woken ↔ thread ∈ (config.conds on).woken) :
    next.effortOf cost thread = config.effortOf cost thread := by
  unfold effortOf
  rw [same]
  simp only [woken]

variable [Fintype Thread]

/-- One thread goes on. -/
theorem effort_update {now : Activity Op Cond Result}
    (activity : next.activity = Function.update config.activity thread now)
    (woken : ∀ other ≠ thread, ∀ on,
      other ∈ (next.conds on).woken ↔ other ∈ (config.conds on).woken) :
    next.effort cost + config.effortOf cost thread =
      config.effort cost + next.effortOf cost thread := by
  apply sum_change
  intro other different
  apply effortOf_congr
  · rw [activity, Function.update_of_ne different]
  · exact woken other different

/-- A thread begins an operation. -/
theorem effort_enter (entered : config.enter thread op = some next) :
    next.effort cost = config.effort cost + (cost op + 2) := by
  obtain ⟨⟨last, idle⟩, same⟩ := eq_of_enter entered
  have activity : next.activity = Function.update config.activity thread (.locking op) := by
    rw [same]
  have change := @effort_update _ _ _ _ _ cost _ _ _ _ _ _ activity fun _ _ _ => by rw [same]
  rw [effortOf_outside idle, effortOf_locking (by rw [activity, Function.update_self])] at change
  omega

variable [DecidableEq Cond]

omit [DecidableEq Cond] in
/-- The threads that notices wake have something to do again. -/
theorem effort_notify [Fintype Cond] {notices : Cond → Notice} {chosen : Cond → Option Thread}
    (inside : config.activity thread = .inside op)
    (activity : next.activity = Function.update config.activity thread (.outside last))
    (conds : ∀ on, next.conds on = (config.conds on).notify (notices on) (chosen on)) :
    next.effort cost + (cost op + 1) ≤
      config.effort cost + 2 * ∑ on, (notices on).reach (Fintype.card Thread) := by
  let newly (on : Cond) : Finset Thread := (next.conds on).woken \ (config.conds on).woken
  have each : ∀ other, next.effortOf cost other + (if other = thread then cost op + 1 else 0) ≤
      config.effortOf cost other + 2 * ∑ on, if other ∈ newly on then 1 else 0 := by
    intro other
    by_cases same : other = thread
    · subst same
      rw [effortOf_outside (by rw [activity, Function.update_self]), effortOf_inside inside,
        if_pos rfl]
      omega
    · have unmoved : next.activity other = config.activity other := by
        rw [activity, Function.update_of_ne same]
      rw [if_neg same]
      cases place : config.activity other with
      | outside | locking | inside =>
          unfold effortOf
          rw [unmoved, place]
          exact Nat.le_add_right _ _
      | asleep op on =>
          rw [place] at unmoved
          by_cases woken : other ∈ (next.conds on).woken
          · by_cases old : other ∈ (config.conds on).woken
            · rw [effortOf_woken unmoved woken, effortOf_woken place old]
              exact Nat.le_add_right _ _
            · have one : (if other ∈ newly on then 1 else 0) ≤
                  ∑ on, if other ∈ newly on then 1 else 0 :=
                Finset.single_le_sum (f := fun on => if other ∈ newly on then 1 else 0)
                  (fun _ _ => Nat.zero_le _) (Finset.mem_univ on)
              rw [if_pos (Finset.mem_sdiff.mpr ⟨woken, old⟩)] at one
              rw [effortOf_woken unmoved woken, effortOf_waiting place old]
              omega
          · rw [effortOf_waiting unmoved woken]
            unfold effortOf
            rw [place]
            dsimp only
            omega
  have counted : ∀ on, ∑ other, (if other ∈ newly on then 1 else 0) ≤
      (notices on).reach (Fintype.card Thread) := by
    intro on
    rw [Finset.sum_ite_mem, Finset.univ_inter, ← Finset.card_eq_sum_ones]
    simp only [newly, conds]
    exact CondVar.card_woken_notify _ _ _
  have total := Finset.sum_le_sum fun other (_ : other ∈ Finset.univ) => each other
  rw [Finset.sum_add_distrib, Finset.sum_add_distrib, Finset.sum_ite_eq' Finset.univ,
    if_pos (Finset.mem_univ thread), ← Finset.mul_sum, Finset.sum_comm] at total
  exact total.trans (Nat.add_le_add_left
    (Nat.mul_le_mul_left 2 (Finset.sum_le_sum fun on _ => counted on)) _)

/-- What a move does to the effort. -/
inductive Spends [Fintype Cond] (monitor : Monitor Op Cond Shared Result) (cost : Op → Nat)
    (config next : Config Thread Op Cond Shared Result) : Move Thread Cond → Prop
  /-- A thread wakes up, and nothing else happens. -/
  | wakes {thread : Thread} (shared : next.shared = config.shared)
      (activity : next.activity = config.activity)
      (effort : next.effort cost ≤ config.effort cost + 2) :
      Spends monitor cost config next (.wake thread)
  /-- A thread goes on in its operation. -/
  | goesOn {move : Move Thread Cond} {thread : Thread} {now : Activity Op Cond Result}
      (shared : next.shared = config.shared)
      (activity : next.activity = Function.update config.activity thread now)
      (before : (config.activity thread).op.isSome) (after : now.op.isSome)
      (effort : next.effort cost + 1 = config.effort cost) : Spends monitor cost config next move
  | leaves {move : Move Thread Cond} {thread : Thread} {op : Op} {notices : Cond → Notice}
      {result : Result} (inside : config.activity thread = .inside op)
      (leaves : monitor.turn op config.shared = .leave next.shared notices result)
      (activity : next.activity = Function.update config.activity thread (.outside (some result)))
      (effort : next.effort cost + (cost op + 1) ≤
        config.effort cost + 2 * ∑ on, (notices on).reach (Fintype.card Thread)) :
      Spends monitor cost config next move

/-- Every move is paid for in one of these ways. -/
theorem spends_of_perform [Fintype Cond] (cost : Op → Nat)
    (consistent : config.Consistent assigned) {move : Move Thread Cond}
    (performed : config.perform monitor move = some next) :
    Spends monitor cost config next move := by
  cases move with
  | lock thread =>
      simp only [Config.perform] at performed
      split at performed
      · next op locking =>
          split at performed
          · have same := Option.some.inj performed
            have activity : next.activity = Function.update config.activity thread (.inside op) :=
              by rw [← same]
            have change := @effort_update _ _ _ _ _ cost _ _ _ _ _ _ activity
              fun _ _ _ => by rw [← same]
            rw [effortOf_locking locking,
              effortOf_inside (by rw [activity, Function.update_self])] at change
            exact .goesOn (by rw [← same]) activity (by rw [locking]; rfl) rfl (by omega)
          · cases performed
      · cases performed
  | turn thread chosen =>
      simp only [Config.perform] at performed
      split at performed
      · next op inside =>
          split at performed
          · next on waits =>
              have same := Option.some.inj performed
              have activity : next.activity =
                  Function.update config.activity thread (.asleep op on) := by rw [← same]
              have conds : next.conds =
                  Function.update config.conds on ((config.conds on).wait thread) := by rw [← same]
              have unwoken : ∀ on', (next.conds on').woken = (config.conds on').woken := by
                rw [conds]
                exact (Function.forall_update_iff config.conds fun on' cond =>
                  cond.woken = (config.conds on').woken).mpr ⟨rfl, fun _ _ => rfl⟩
              have awake := consistent.not_sleeper thread
                (fun op on => by rw [inside]; exact fun impossible => by cases impossible) on
              have change := @effort_update _ _ _ _ _ cost _ _ _ _ _ _ activity
                fun _ _ on' => by rw [unwoken]
              rw [effortOf_inside inside, effortOf_waiting (by rw [activity, Function.update_self])
                (by rw [unwoken]; exact fun woken => awake (Finset.mem_union_right _ woken))]
                at change
              exact .goesOn (by rw [← same]) activity (by rw [inside]; rfl) rfl (by omega)
          · next shared notices result leaves =>
              split at performed
              · cases performed
                exact .leaves inside leaves rfl (effort_notify inside rfl fun _ => rfl)
              · cases performed
      · cases performed
  | wake thread =>
      simp only [Config.perform] at performed
      split at performed
      · next op on asleep =>
          split at performed
          · next waits =>
              have same := Option.some.inj performed
              have activity : next.activity = config.activity := by rw [← same]
              have conds : next.conds =
                  Function.update config.conds on ((config.conds on).wake thread) := by rw [← same]
              have woken : ∀ other ≠ thread, ∀ on',
                  other ∈ (next.conds on').woken ↔ other ∈ (config.conds on').woken := by
                intro other different
                rw [conds]
                refine (Function.forall_update_iff config.conds fun on' cond =>
                  other ∈ cond.woken ↔ other ∈ (config.conds on').woken).mpr
                    ⟨?_, fun _ _ => Iff.rfl⟩
                exact Finset.mem_insert.trans (or_iff_right different)
              have change := @effort_update _ _ _ _ _ cost _ config next thread _ _
                (by rw [activity, Function.update_eq_self]) woken
              have still : next.activity thread = .asleep op on := by rw [activity, asleep]
              have up : thread ∈ (next.conds on).woken := by
                rw [conds, Function.update_self]
                exact Finset.mem_insert_self _ _
              rw [effortOf_woken still up] at change
              refine .wakes (by rw [← same]) activity ?_
              have least : cost op ≤ config.effortOf cost thread := by
                rw [effortOf, asleep]
                exact Nat.le_add_right _ _
              omega
          · cases performed
      · cases performed
  | resume thread =>
      simp only [Config.perform] at performed
      split at performed
      · next op on asleep =>
          split at performed
          · next possible =>
              have same := Option.some.inj performed
              have activity : next.activity = Function.update config.activity thread (.inside op) :=
                by rw [← same]
              have woken : ∀ other ≠ thread, ∀ on',
                  other ∈ (next.conds on').woken ↔ other ∈ (config.conds on').woken := by
                intro other different
                rw [← same]
                refine (Function.forall_update_iff config.conds fun on' cond =>
                  other ∈ cond.woken ↔ other ∈ (config.conds on').woken).mpr
                    ⟨?_, fun _ _ => Iff.rfl⟩
                exact Finset.mem_erase.trans (and_iff_right different)
              have change := @effort_update _ _ _ _ _ cost _ _ _ _ _ _ activity woken
              rw [effortOf_woken asleep possible.2,
                effortOf_inside (by rw [activity, Function.update_self])] at change
              exact .goesOn (by rw [← same]) activity (by rw [asleep]; rfl) rfl (by omega)
          · cases performed
      · cases performed

end Config

/-- The thread waits for nothing but the mutex, or has it. -/
def Config.Ready (config : Config Thread Op Cond Shared Result) (thread : Thread) : Prop :=
  match config.activity thread with
  | .outside _ => False
  | .locking _ => True
  | .inside _ => True
  | .asleep _ on => thread ∈ (config.conds on).woken

/-- **No deadlock in a monitor.** While a thread is ready, some thread can make a move that is
not waking up. -/
theorem Config.Consistent.goesOn [DecidableEq Thread] [DecidableEq Cond] [Fintype Cond]
    {assigned : Thread → Op → Prop} {config : Config Thread Op Cond Shared Result}
    (consistent : config.Consistent assigned) (monitor : Monitor Op Cond Shared Result)
    {thread : Thread} (ready : config.Ready thread) :
    ∃ move : Move Thread Cond, move.wakes = false ∧ (config.perform monitor move).isSome := by
  cases holder : config.holder with
  | some holds =>
      obtain ⟨op, inside⟩ := (consistent.inside holds).mp holder
      cases turn : monitor.turn op config.shared with
      | wait on =>
          refine ⟨.turn holds fun _ => none, rfl, ?_⟩
          simp only [Config.perform, inside, turn, Option.isSome_some]
      | leave shared notices result =>
          choose chosen allowed using fun on => (config.conds on).exists_allows (notices on)
          refine ⟨.turn holds chosen, rfl, ?_⟩
          simp only [Config.perform, inside, turn, allowed, implies_true, ↓reduceIte,
            Option.isSome_some]
  | none =>
      unfold Config.Ready at ready
      cases place : config.activity thread with
      | outside last =>
          rw [place] at ready
          exact ready.elim
      | locking op =>
          refine ⟨.lock thread, rfl, ?_⟩
          simp only [Config.perform, place, holder, ↓reduceIte, Option.isSome_some]
      | inside op => exact absurd place (consistent.not_inside holder thread op)
      | asleep op on =>
          rw [place] at ready
          have woken : thread ∈ (config.conds on).woken := ready
          refine ⟨.resume thread, rfl, ?_⟩
          simp only [Config.perform, place, holder, woken, and_self, ↓reduceIte,
            Option.isSome_some]

end Monitor

end MiniDbms.Foundation
