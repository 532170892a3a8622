import EclipseOS.Agentd.Handle

/-! # What most calls leave alone

Most of what the core does says nothing on a connection but events, gives the router
nothing, and opens no task. -/

namespace EclipseOS.Agentd

open Foundation PolicyEval

/-- Nobody waits for it, and nobody has to answer it. -/
def Out.isQuiet : Out → Bool
  | .reply .. | .ask .. | .router (.complete _) => false
  | _ => true

namespace Core

variable {core before middle after : Core} {host : Host}

def surface (core : Core) (conn : Nat) : Option Surface :=
  (core.conns.lookup conn).map Conn.surface

def isOpen (core : Core) (id : String) : Bool := (core.task id).any (!·.isClosed)

def Murmurs (before after : Core) : Prop :=
  ∃ added : List Out, after.log = before.log ++ added ∧ ∀ out ∈ added, out.isQuiet

namespace Murmurs

theorem of_eq (same : after.log = before.log) : Murmurs before after :=
  ⟨[], by rw [same, List.append_nil], by simp⟩

theorem trans (first : Murmurs before middle) (second : Murmurs middle after) :
    Murmurs before after := by
  rcases first with ⟨early, extended, quiet⟩
  rcases second with ⟨late, extended', quiet'⟩
  refine ⟨early ++ late, by rw [extended', extended, List.append_assoc], ?_⟩
  intro out member
  exact (List.mem_append.mp member).elim (quiet out) (quiet' out)

end Murmurs

/-- Who waits for what, and where they are, is as it was. -/
structure Still (before after : Core) : Prop where
  log : Murmurs before after
  surface : ∀ conn, after.surface conn = before.surface conn
  pending : after.pending = before.pending
  inferPending : after.inferPending = before.inferPending
  inferByTask : after.inferByTask = before.inferByTask
  nextInfer : before.nextInfer ≤ after.nextInfer
  nextReq : before.nextReq ≤ after.nextReq

theorem Still.trans (first : Still before middle) (second : Still middle after) :
    Still before after where
  log := first.log.trans second.log
  surface conn := (second.surface conn).trans (first.surface conn)
  pending := second.pending.trans first.pending
  inferPending := second.inferPending.trans first.inferPending
  inferByTask := second.inferByTask.trans first.inferByTask
  nextInfer := first.nextInfer.trans second.nextInfer
  nextReq := first.nextReq.trans second.nextReq

/-- No task opens, and no agent starts or ends. -/
structure Quiet (before after : Core) : Prop extends Still before after where
  procs : after.procs = before.procs
  opens : ∀ id, after.isOpen id → before.isOpen id

namespace Quiet

theorem refl (core : Core) : Quiet core core where
  log := .of_eq rfl
  surface _ := rfl
  pending := rfl
  inferPending := rfl
  inferByTask := rfl
  nextInfer := le_refl _
  procs := rfl
  nextReq := le_refl _
  opens _ isOpen := isOpen

theorem trans (first : Quiet before middle) (second : Quiet middle after) :
    Quiet before after where
  toStill := first.toStill.trans second.toStill
  procs := second.procs.trans first.procs
  opens id isOpen := first.opens id (second.opens id isOpen)

theorem foldl {α : Type} {step : Core → α → Core} (each : ∀ core item, Quiet core (step core item))
    (items : List α) (core : Core) : Quiet core (items.foldl step core) := by
  induction items generalizing core with
  | nil => exact refl core
  | cons item items induction => exact (each core item).trans (induction (step core item))

end Quiet

/-! ## Plumbing -/

theorem quiet_append {added : List Out} (quiet : ∀ out ∈ added, out.isQuiet) :
    Quiet core { core with log := core.log ++ added } :=
  { Quiet.refl core with log := ⟨added, rfl, quiet⟩ }

theorem quiet_emit {out : Out} (quiet : out.isQuiet) : Quiet core (core.emit out) :=
  quiet_append (by simpa using quiet)

theorem quiet_event (core : Core) (name : String) (data : Json) :
    Quiet core (core.event name data) := by
  apply quiet_append
  intro out member
  rcases List.mem_filterMap.mp member with ⟨entry, -, shown⟩
  dsimp only at shown
  split at shown
  · exact Option.some.inj shown ▸ rfl
  · cases shown

theorem quiet_reqId (core : Core) : Quiet core core.reqId.2 :=
  { Quiet.refl core with nextReq := Nat.le_succ _ }

theorem quiet_sendPolicyd (core : Core) (message : ToPolicyd) :
    Quiet core (core.sendPolicyd message).2 := by
  rw [sendPolicyd]
  split
  · exact Quiet.refl core
  · split
    · have quiet : Quiet core (core.emit (.policyd message)) := quiet_emit rfl
      exact { quiet with }
    · exact { Quiet.refl core with }

theorem quiet_sendAuditBytes (core : Core) (emission : Bytes) :
    Quiet core (core.sendAuditBytes emission) := by
  rw [sendAuditBytes]
  split
  · exact { Quiet.refl core with }
  · split
    · have quiet : Quiet core (core.emit (.audit emission)) := quiet_emit rfl
      exact { quiet with }
    · exact { Quiet.refl core with }

theorem quiet_exited (core : Core) (task reason : String) :
    Quiet core (core.exited task reason) :=
  (quiet_reqId core).trans (quiet_sendPolicyd _ _)

theorem quiet_record (core : Core) (host : Host) (task kind : String) (body : Json) :
    Quiet core (core.record host task kind body) :=
  quiet_emit rfl

/-! ## Tasks -/

theorem id_of_task {id : String} {task : Task} (found : core.task id = some task) :
    task.id = id := by
  simpa using List.find?_some found

theorem task_setTask {task : Task} {id : String} :
    (core.setTask task).task id =
      (core.task id).map fun held => if held.id = task.id then task else held := by
  have kept : ((fun held : Task => decide (held.id = id)) ∘ fun held =>
      if held.id = task.id then task else held) = fun held => decide (held.id = id) := by
    funext held
    by_cases same : held.id = task.id
    · simp [same]
    · simp [same]
  rw [Core.task, setTask, List.find?_map, kept, Core.task]

theorem task_removeTask {gone id : String} :
    (core.removeTask gone).task id = if id = gone then none else core.task id := by
  rw [Core.task, removeTask, List.find?_filter]
  split
  · rename_i same
    subst same
    rw [List.find?_eq_none]
    intro held _
    simp
  · rename_i apart
    rw [Core.task]
    congr 1
    funext held
    by_cases named : held.id = id
    · simp [named, apart]
    · simp [named]

theorem find?_orderedInsert {tasks : List Task} {task : Task} {id : String}
    (fresh : tasks.find? (·.id = task.id) = none) :
    (tasks.orderedInsert (fun left right => left.id ≤ right.id) task).find? (·.id = id) =
      if task.id = id then some task else tasks.find? (·.id = id) := by
  induction tasks with
  | nil =>
    by_cases same : task.id = id
    · simp [same]
    · simp [same]
  | cons held tasks induction =>
    have apart : held.id ≠ task.id := by
      have none := List.find?_eq_none.mp fresh held (List.mem_cons_self ..)
      simpa using none
    rw [List.find?_cons_of_neg (by simpa using apart)] at fresh
    rw [List.orderedInsert]
    split
    · by_cases same : task.id = id
      · rw [List.find?_cons_of_pos (by simpa using same), if_pos same]
      · rw [List.find?_cons_of_neg (by simpa using same), if_neg same]
    · by_cases named : held.id = id
      · rw [List.find?_cons_of_pos (by simpa using named),
          List.find?_cons_of_pos (by simpa using named),
          if_neg fun same => apart (named.trans same.symm)]
      · rw [List.find?_cons_of_neg (by simpa using named),
          List.find?_cons_of_neg (by simpa using named), induction fresh]

theorem task_insertTask {task : Task} {id : String} (fresh : core.task task.id = none) :
    (core.insertTask task).task id = if task.id = id then some task else core.task id :=
  find?_orderedInsert fresh

theorem quiet_setTask {task held : Task} (found : core.task task.id = some held)
    (closed : held.isClosed → task.isClosed) : Quiet core (core.setTask task) :=
  { Quiet.refl core with
    opens := by
      intro id isOpen
      rw [Core.isOpen, task_setTask] at isOpen
      rw [Core.isOpen]
      cases other : core.task id with
      | none => simp [other] at isOpen
      | some kept =>
        rw [other, Option.map_some, Option.any_some] at isOpen
        rw [Option.any_some]
        split at isOpen
        · rename_i same
          have here := id_of_task other
          rw [← here, same, found] at other
          cases Option.some.inj other
          cases shut : held.isClosed with
          | false => rfl
          | true => simp [closed shut] at isOpen
        · exact isOpen }

theorem quiet_removeTask (core : Core) (id : String) : Quiet core (core.removeTask id) :=
  { Quiet.refl core with
    opens := by
      intro other isOpen
      rw [Core.isOpen, task_removeTask] at isOpen
      split at isOpen
      · simp at isOpen
      · exact isOpen }

theorem quiet_sweep (core : Core) (settings : Config) (host : Host) :
    Quiet core (core.sweep settings host) :=
  Quiet.foldl quiet_removeTask _ core

theorem task_of_taskRef {id : String} {task : Task} (found : core.taskRef id = .ok task) :
    core.task id = some task := by
  rw [taskRef] at found
  split at found
  · rename_i held here
    cases found
    exact here
  · cases found

theorem quiet_awaitingEvent (core : Core) (id : String) (awaiting : Bool) :
    Quiet core (core.awaitingEvent id awaiting) :=
  quiet_event core _ _

theorem quiet_setSubscribed (core : Core) (conn : Nat) (subscribed : Bool) :
    Quiet core (core.setSubscribed conn subscribed) := by
  rw [setSubscribed]
  split
  · rename_i held found
    exact { Quiet.refl core with
      surface := by
        intro other
        rw [surface, surface]
        by_cases same : other = conn
        · subst same
          rw [AList.lookup_insert, found, Option.map_some, Option.map_some]
        · rw [AList.lookup_insert_ne same] }
  · exact Quiet.refl core

end Core

end EclipseOS.Agentd
