import Mathlib.Data.Finset.Card

/-! # Condition variables

A condition variable knows the threads that wait, and those that have been woken and do
not have the mutex again yet. A signal wakes one waiting thread, if there is one, so it
covers one more item for which threads wait
(`MiniDbms.Foundation.CondVar.Covers.notify`).
-/

namespace MiniDbms.Foundation

structure CondVar (Thread : Type) where
  /-- Threads that wait. -/
  waiting : Finset Thread
  /-- Threads that have been woken and do not have the mutex again yet. -/
  woken : Finset Thread

/-- What an operation does about a condition variable when it returns. -/
inductive Notice where
  | silent
  | signal
  | broadcast
  deriving DecidableEq

namespace CondVar

variable {Thread : Type}

def quiet : CondVar Thread := { waiting := ∅, woken := ∅ }

/-- As long as a thread waits, there are not more items than woken threads. -/
def Covers (cond : CondVar Thread) (items : Nat) : Prop :=
  cond.waiting.Nonempty → items ≤ cond.woken.card

/-- No thread is waiting and woken at once. -/
def Separate (cond : CondVar Thread) : Prop := Disjoint cond.waiting cond.woken

variable {cond : CondVar Thread} {thread : Thread} {items : Nat}

theorem separate_quiet : (quiet : CondVar Thread).Separate := Finset.disjoint_empty_left _

theorem covers_zero (cond : CondVar Thread) : cond.Covers 0 := fun _ => Nat.zero_le _

theorem Covers.mono {fewer : Nat} (covers : cond.Covers items) (less : fewer ≤ items) :
    cond.Covers fewer := fun waits => less.trans (covers waits)

theorem covers_of_none (none : cond.waiting = ∅) : cond.Covers items := fun waits =>
  absurd none waits.ne_empty

variable [DecidableEq Thread]

def wait (cond : CondVar Thread) (thread : Thread) : CondVar Thread :=
  { cond with waiting := insert thread cond.waiting }

def wake (cond : CondVar Thread) (thread : Thread) : CondVar Thread :=
  { waiting := cond.waiting.erase thread, woken := insert thread cond.woken }

def resume (cond : CondVar Thread) (thread : Thread) : CondVar Thread :=
  { cond with woken := cond.woken.erase thread }

/-- The thread that a signal may wake: one that waits, if there is one. -/
def Allows (cond : CondVar Thread) : Notice → Option Thread → Prop
  | .signal, some thread => thread ∈ cond.waiting
  | .signal, none => cond.waiting = ∅
  | _, _ => True

instance decidableAllows (cond : CondVar Thread) :
    ∀ notice chosen, Decidable (cond.Allows notice chosen)
  | .silent, _ => .isTrue trivial
  | .broadcast, _ => .isTrue trivial
  | .signal, some thread => inferInstanceAs (Decidable (thread ∈ cond.waiting))
  | .signal, none => inferInstanceAs (Decidable (cond.waiting = ∅))

def notify (cond : CondVar Thread) : Notice → Option Thread → CondVar Thread
  | .silent, _ => cond
  | .signal, none => cond
  | .signal, some thread => cond.wake thread
  | .broadcast, _ => { waiting := ∅, woken := cond.woken ∪ cond.waiting }

/-- The threads asleep on the condition variable, or on their way from it. -/
def sleepers (cond : CondVar Thread) : Finset Thread := cond.waiting ∪ cond.woken

@[simp] theorem sleepers_wait (cond : CondVar Thread) (thread : Thread) :
    (cond.wait thread).sleepers = insert thread cond.sleepers :=
  Finset.insert_union _ _ _

theorem sleepers_wake (member : thread ∈ cond.waiting) :
    (cond.wake thread).sleepers = cond.sleepers := by
  rw [sleepers, wake, sleepers, Finset.union_insert, ← Finset.insert_union,
    Finset.insert_erase member]

theorem sleepers_resume (separate : thread ∉ cond.waiting) :
    (cond.resume thread).sleepers = cond.sleepers.erase thread := by
  rw [sleepers, resume, sleepers, Finset.erase_union_distrib, Finset.erase_eq_of_notMem separate]

/-- Notifying puts no thread to sleep and takes none out of it. -/
theorem sleepers_notify {notice : Notice} {chosen : Option Thread}
    (allowed : cond.Allows notice chosen) :
    (cond.notify notice chosen).sleepers = cond.sleepers := by
  cases notice with
  | silent => rfl
  | signal =>
      cases chosen with
      | none => rfl
      | some thread => exact sleepers_wake allowed
  | broadcast =>
      change ∅ ∪ (cond.woken ∪ cond.waiting) = cond.waiting ∪ cond.woken
      rw [Finset.empty_union, Finset.union_comm]

theorem Separate.wait (separate : cond.Separate) (awake : thread ∉ cond.sleepers) :
    (cond.wait thread).Separate :=
  Finset.disjoint_insert_left.mpr ⟨fun member => awake (Finset.mem_union_right _ member), separate⟩

theorem Separate.wake (separate : cond.Separate) : (cond.wake thread).Separate :=
  Finset.disjoint_insert_right.mpr ⟨Finset.notMem_erase _ _,
    separate.mono_left (Finset.erase_subset _ _)⟩

theorem Separate.resume (separate : cond.Separate) : (cond.resume thread).Separate :=
  separate.mono_right (Finset.erase_subset _ _)

theorem Separate.notify (separate : cond.Separate) (notice : Notice) (chosen : Option Thread) :
    (cond.notify notice chosen).Separate := by
  cases notice with
  | silent => exact separate
  | signal =>
      cases chosen with
      | none => exact separate
      | some thread => exact separate.wake
  | broadcast => exact Finset.disjoint_empty_left _

/-- Notifying adds no waiting thread. -/
theorem waiting_notify_subset (cond : CondVar Thread) (notice : Notice) (chosen : Option Thread) :
    (cond.notify notice chosen).waiting ⊆ cond.waiting := by
  cases notice with
  | silent => exact Finset.Subset.refl _
  | signal =>
      cases chosen with
      | none => exact Finset.Subset.refl _
      | some thread => exact Finset.erase_subset _ _
  | broadcast => exact Finset.empty_subset _

/-- Waking a thread covers one more item. -/
theorem Covers.wake (covers : cond.Covers items) (separate : cond.Separate)
    (member : thread ∈ cond.waiting) : (cond.wake thread).Covers (items + 1) := by
  intro _
  have fresh : thread ∉ cond.woken := Finset.disjoint_left.mp separate member
  rw [CondVar.wake, Finset.card_insert_of_notMem fresh]
  exact Nat.succ_le_succ (covers ⟨thread, member⟩)

/-- The thread that goes on no longer covers an item. -/
theorem Covers.resume (covers : cond.Covers items) : (cond.resume thread).Covers (items - 1) := by
  intro waits
  have bound : items ≤ cond.woken.card := covers waits
  have least := Finset.pred_card_le_card_erase (s := cond.woken) (a := thread)
  change items - 1 ≤ (cond.woken.erase thread).card
  omega

/-- A signal covers one more item, a broadcast any number. -/
theorem Covers.notify {more : Nat} {notice : Notice} {chosen : Option Thread}
    (covers : cond.Covers items) (separate : cond.Separate)
    (allowed : cond.Allows notice chosen)
    (enough : notice = .broadcast ∨ more ≤ items + if notice = .signal then 1 else 0) :
    (cond.notify notice chosen).Covers more := by
  cases notice with
  | silent => exact covers.mono (enough.resolve_left nofun)
  | broadcast => exact covers_of_none rfl
  | signal =>
      cases chosen with
      | none => exact covers_of_none allowed
      | some thread => exact (covers.wake separate allowed).mono (enough.resolve_left nofun)

end CondVar

end MiniDbms.Foundation
