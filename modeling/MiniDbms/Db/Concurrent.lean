import MiniDbms.Db.Restart
import MiniDbms.Db.Steps

/-! # Concurrent calls

Any number of threads call one engine, whose lock admits one insert or any number of
selects. In every interleaving of their steps the completed calls are a serial run
(`MiniDbms.Db.concurrent_serializable`).
-/

namespace MiniDbms.Db

open Foundation Util Bptree

variable {Thread : Type}

/-- A completed call for which the operating system provided everything. -/
structure Provided (entry : Completed Thread (Call × Environment) (DbResult × Heap)) : Prop where
  calm : entry.op.2.Calm
  granted : entry.result.2.refused = false

instance (entry : Completed Thread (Call × Environment) (DbResult × Heap)) :
    Decidable (Provided entry) :=
  decidable_of_iff (entry.op.2.Calm ∧ entry.result.2.refused = false)
    ⟨fun all => ⟨all.1, all.2⟩, fun provided => ⟨provided.calm, provided.granted⟩⟩

/-- The completed calls, made one after the other, give their results and lead to the
same store. -/
theorem replays_run {start base : Store}
    {log : List (Completed Thread (Call × Environment) (DbResult × Heap))}
    (replayed : lockProtocol.Replays start log base) (provided : ∀ entry ∈ log, Provided entry) :
    engineMachine.run start (log.map (·.op)) = (log.map (·.result.1), base) ∧
      engineMachine.Meets Undisturbed start (log.map (·.op)) := by
  induction replayed with
  | nil => exact ⟨rfl, trivial⟩
  | @snoc log shared next entry earlier last ih =>
      obtain ⟨before, quiet⟩ :=
        ih fun entry member => provided entry (List.mem_append_left _ member)
      obtain ⟨calm, granted⟩ := provided entry (List.mem_append_right _ List.mem_cons_self)
      obtain ⟨answered, reached⟩ := last.unique (call_completes entry.op.1 calm.lock shared)
      rw [answered] at granted
      constructor
      · rw [List.map_append, List.map_append, Machine.run_append, before, reached]
        have first : entry.result.1 = (entry.op.1.run entry.op.2 shared).result :=
          congrArg Prod.fst answered
        simp only [List.map_cons, List.map_nil, first]
        rfl
      · rw [List.map_append, Machine.Meets.append_iff, before]
        exact ⟨quiet, ⟨calm, granted⟩, trivial⟩

variable [DecidableEq Thread]

/-- **The calls are serializable.** From an empty file, in every interleaving of the
steps of any number of threads, if nothing failed for the completed calls: making them
one after the other gives the same results; their order is that in which conflicting
calls took the lock; the store is that of the serial run whenever no insert holds the
lock, in particular while a select reads; and the lines of the file are those of the
rows, in order. -/
theorem concurrent_serializable {dataPath : CString} {env : Environment} {db : DbEngine}
    (calm : env.Calm) (granted : (dbInit dataPath [] env).2.refused = false)
    (opened : (dbInit dataPath [] env).1 = .ok db)
    {moves : List (Move Thread (Call × Environment))}
    {config : Config Thread (Call × Environment) Task Store (DbResult × Heap)}
    (ran : (Config.initial { db := db, file := [] }).run lockProtocol moves = some config)
    (provided : ∀ entry ∈ config.log, Provided entry) :
    let serial := engineMachine.run { db := db, file := [] } (config.log.map (·.op))
    serial.1 = config.log.map (·.result.1) ∧
      config.log.Pairwise lockProtocol.InOrder ∧
      (config.lock.writer = none → config.shared = serial.2) ∧
      (∀ thread query phase op ticket,
        config.activity thread = .inside op (.select query phase) ticket →
          config.shared = serial.2) ∧
      serial.2.file = serial.2.db.rows.flatMap recordLine := by
  obtain ⟨base, serialized⟩ := Config.serialized serialized_initial ran
  obtain ⟨same, quiet⟩ := replays_run serialized.replayed provided
  have durable : Durable (engineMachine.run { db := db, file := [] } (config.log.map (·.op))).2 :=
    engineMachine.run_invariant Durable
      (fun store call durable undisturbed => durable.call undisturbed)
      (durable_opened calm granted opened) quiet
  refine ⟨congrArg Prod.fst same, serialized.ordered, ?_, ?_, durable.file⟩
  · intro free
    rw [same]
    exact serialized.settled free
  · intro thread query phase op ticket selecting
    have inside := serialized.inside thread op _ ticket selecting
    have reads : lockProtocol.writes op = false := inside.exclusive.symm
    rw [same]
    exact serialized.settled (serialized.sound.writer_none (reads ▸ inside.holds))

/-- An insert and two selects that overlap; the one that took the lock first is
completed last. -/
theorem concurrent_serializable_overlap :
    let path := CString.ofBuffer (ascii "users.csv")
    let all : DbFilter :=
      { type := .all, id := 0, name := (CString.ofBuffer []).truncate dbNameLimit }
    let insert : Call × Environment := (.insert (CString.ofBuffer (ascii "ann")) 30, .calm)
    let select : Call × Environment := (.select all allColumnsProjection, .calm)
    let start : Store := { db := emptyEngine (path.truncate dbPathLimit), file := [] }
    let inserting : List (Move Nat (Call × Environment)) := List.replicate 10 (.work 0)
    let moves : List (Move Nat (Call × Environment)) :=
      [.request 0 insert, .request 1 select, .request 2 select, .acquire 0] ++ inserting ++
        [.release 0, .acquire 1, .work 1, .acquire 2, .work 2, .work 1, .work 2, .work 2, .work 2,
          .release 2, .work 1, .work 1, .release 1]
    ∃ config, (Config.initial start).run lockProtocol moves = some config ∧
      config.log.map (·.ticket) = [0, 2, 1] ∧
      (engineMachine.run start (config.log.map (·.op))).1 = config.log.map (·.result.1) := by
  intro path all insert select start inserting moves
  have checked : ((Config.initial start).run lockProtocol moves).any (fun config =>
      decide (config.log.map (·.ticket) = [0, 2, 1]) &&
        decide (∀ entry ∈ config.log, Provided entry)) = true := by
    decide +kernel
  obtain ⟨config, ran, facts⟩ := (Option.any_eq_true _ _).mp checked
  obtain ⟨order, provided⟩ := Bool.and_eq_true_iff.mp facts
  exact ⟨config, ran, of_decide_eq_true order,
    (@concurrent_serializable Nat _ path .calm _ (by decide) (by decide +kernel) rfl _ _ ran
      (of_decide_eq_true provided)).1⟩

end MiniDbms.Db
