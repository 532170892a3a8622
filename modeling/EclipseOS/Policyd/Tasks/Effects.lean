import EclipseOS.Foundation.Atomic
import EclipseOS.Policyd.Tasks.Replay

/-! # What a task event changes

An event that is applied moves one task, and where it closes the task ends the grants
drawn on it. The ledger sees a close or nothing. -/

namespace EclipseOS.Policyd

open Foundation PolicyEval

section Effects

variable [Ed25519]

/-- The grants a close of the task ends: those on it that are live. -/
def TaskStore.endedIds (store : TaskStore) (id : Ulid) : List Ulid :=
  (store.grants.filter fun issued => issued.grant.taskId = id ∧ !issued.revoked).map (·.grant.id)

/-! ## What the journal leaves alone -/

/-- The tasks and the grants are as they were. -/
def TaskStore.Same (before after : TaskStore) : Prop :=
  after.tasks = before.tasks ∧ after.grants = before.grants

theorem TaskStore.Same.refl (store : TaskStore) : store.Same store := ⟨rfl, rfl⟩

theorem TaskStore.Same.trans {before middle after : TaskStore} (first : before.Same middle)
    (second : middle.Same after) : before.Same after :=
  ⟨second.1.trans first.1, second.2.trans first.2⟩

theorem preserves_onAudit {α : Type} (call : Journal → Except StoreError α × Journal) :
    Preserves TaskStore.Same (onAudit call) := by
  intro store
  cases called : call store.audit with
  | mk answer audit =>
    cases answer with
    | ok value =>
      have run : (onAudit call).run store = .ok value { store with audit } := by
        show onAudit call store = _
        rw [onAudit, called]
      rw [leaves_ok run]
      exact ⟨rfl, rfl⟩
    | error error =>
      have run : (onAudit call).run store = .error (.store error) { store with audit } := by
        show onAudit call store = _
        rw [onAudit, called]
      rw [leaves_error run]
      exact ⟨rfl, rfl⟩

def TaskError.IsStore (error : TaskError) : Prop := ∃ failure, error = .store failure

theorem throws_onAudit {α : Type} (call : Journal → Except StoreError α × Journal) :
    Throws TaskError.IsStore (onAudit call) := by
  intro store error after refused
  change onAudit call store = _ at refused
  rw [onAudit] at refused
  cases called : call store.audit with
  | mk answer audit =>
    cases answer with
    | ok value =>
      rw [called] at refused
      cases refused
    | error failure =>
      rw [called] at refused
      cases refused
      exact ⟨failure, rfl⟩

theorem set_run (state store : TaskStore) :
    (set state : Op PUnit).run store = .ok ⟨⟩ state := rfl

variable [Blake3]

theorem preserves_commit (record : Record) : Preserves TaskStore.Same (commit record) := by
  apply Preserves.bind (@TaskStore.Same.trans _) (preserves_onAudit _)
  intro _
  exact preserves_onAudit _

theorem same_of_commit {record : Record} {store after : TaskStore} {value : Unit}
    (run : (commit record).run store = .ok value after) : store.Same after := by
  have kept := preserves_commit record store
  rwa [leaves_ok run] at kept

theorem preserves_journal (task : Task) (op : String) :
    Preserves TaskStore.Same (journal task op) := by
  apply preserves_get_bind
  intro store
  cases known : store.hashes task.id with
  | some hash =>
    simp only [pure_bind]
    exact preserves_commit _ store
  | none =>
    simp only [pure_bind]
    rw [leaves_bind_ok (set_run _ store)]
    have written := preserves_commit (taskRecord task op task.statementHash)
      { store with hashes := Function.update store.hashes task.id (some task.statementHash) }
    exact ⟨written.1, written.2⟩

/-! ## What the journal refuses with -/

theorem throws_commit (record : Record) : Throws TaskError.IsStore (commit record) :=
  (throws_onAudit _).bind fun _ => throws_onAudit _

theorem throws_journal (task : Task) (op : String) :
    Throws TaskError.IsStore (journal task op) := by
  apply throws_get_bind
  intro store
  cases known : store.hashes task.id with
  | some hash =>
    simp only [pure_bind]
    exact throws_commit _
  | none =>
    simp only [pure_bind]
    exact (total_set _).throws.bind fun _ => throws_commit _

theorem throws_revokeForTask (id : Ulid) : Throws TaskError.IsStore (revokeForTask id) := by
  apply throws_get_bind
  intro store
  change Throws _ (if store.endedIds id ≠ [] then _ else pure ⟨⟩ : Op Unit)
  split
  · exact (throws_commit _).bind fun _ => (total_modify _).throws
  · exact (total_pure _).throws

/-! ## A task is moved, its grants end -/

theorem revokeForTask_ok {id : Ulid} {store after : TaskStore} {value : Unit}
    (run : (revokeForTask id).run store = .ok value after) :
    after.tasks = store.tasks ∧
      after.grants = store.grants.map fun issued =>
        if issued.grant.id ∈ store.endedIds id then { issued with revoked := true }
        else issued := by
  have read : (get : Op TaskStore).run store = .ok store store := rfl
  rw [revokeForTask, run_bind_ok read] at run
  change (if store.endedIds id ≠ [] then _ else pure ⟨⟩ : Op Unit).run store = _ at run
  by_cases any : store.endedIds id = []
  · rw [if_neg (not_not_intro any)] at run
    cases run
    simp [any]
  · rw [if_pos any] at run
    obtain ⟨_, middle, committed, modified⟩ := of_run_bind run
    have same := same_of_commit committed
    cases modified
    refine ⟨same.1, ?_⟩
    show middle.grants.map _ = _
    rw [same.2]
    rfl

structure Applied (id : Ulid) (event : TaskEvent) (next : TaskState) (store after : TaskStore) :
    Prop where
  moved : ∃ task, store.task id = some task ∧ task.state.transition event = .ok next
  tasks : after.tasks =
    modifyFirst (·.id = id) (fun task => { task with state := next }) store.tasks
  grants : after.grants =
    if next.isLive then store.grants
    else store.grants.map fun issued =>
      if issued.grant.id ∈ store.endedIds id then { issued with revoked := true } else issued

theorem apply_ok {id : Ulid} {event : TaskEvent} {next : TaskState} {store after : TaskStore}
    (run : (apply id event).run store = .ok next after) : Applied id event next store after := by
  have read : (get : Op TaskStore).run store = .ok store store := rfl
  rw [apply, run_bind_ok read] at run
  cases found : store.task id with
  | none =>
    rw [found] at run
    cases run
  | some task =>
    simp only [found] at run
    cases moved : task.state.transition event with
    | error illegal =>
      simp only [moved] at run
      cases run
    | ok state =>
      simp only [moved] at run
      obtain ⟨_, middle, written, rest⟩ := of_run_bind run
      have same := preserves_journal { task with state }
        (if state.isLive then "state" else "close") store
      rw [leaves_ok written] at same
      have ids : middle.endedIds id = store.endedIds id := by
        rw [TaskStore.endedIds, TaskStore.endedIds, same.2]
      cases live : state.isLive with
      | true =>
        rw [live, if_neg Bool.true_eq_false_eq_False] at rest
        cases rest
        refine ⟨⟨task, found, moved⟩, ?_, ?_⟩
        · show modifyFirst _ _ middle.tasks = _
          rw [same.1]
        · rw [if_pos live]
          exact same.2
      | false =>
        rw [live, if_pos rfl] at rest
        obtain ⟨_, last, revoked, rest⟩ := of_run_bind rest
        have ended := revokeForTask_ok revoked
        cases rest
        refine ⟨⟨task, found, moved⟩, ?_, ?_⟩
        · show modifyFirst _ _ last.tasks = _
          rw [ended.1, same.1]
        · rw [if_neg (by simp [live])]
          show last.grants = _
          rw [ended.2, same.2, ids]

theorem apply_error {id : Ulid} {event : TaskEvent} {error : TaskError} {store after : TaskStore}
    (run : (apply id event).run store = .error error after) : error.IsStore ∨ after = store := by
  have read : (get : Op TaskStore).run store = .ok store store := rfl
  rw [apply, run_bind_ok read] at run
  cases found : store.task id with
  | none =>
    rw [found] at run
    cases run
    exact Or.inr rfl
  | some task =>
    simp only [found] at run
    cases moved : task.state.transition event with
    | error illegal =>
      rw [moved] at run
      cases run
      exact Or.inr rfl
    | ok state =>
      simp only [moved] at run
      left
      revert run
      apply (throws_journal _ _).bind
      intro _
      split
      · apply (throws_revokeForTask id).bind
        intro _
        exact (total_modify _).throws.bind fun _ => (total_pure _).throws
      · exact (total_modify _).throws.bind fun _ => (total_pure _).throws

end Effects

/-! ## What is seen of it -/

section Applied

variable [Ed25519] {id other : Ulid} {event : TaskEvent} {next : TaskState}
  {store after : TaskStore}

theorem Applied.wasLive (applied : Applied id event next store after) :
    ∃ task, store.task id = some task ∧ task.state.isLive = true := by
  obtain ⟨task, found, moved⟩ := applied.moved
  exact ⟨task, found, TaskState.isLive_of_transition moved⟩

theorem Applied.task_self (applied : Applied id event next store after) :
    after.task id = (store.task id).map fun task => { task with state := next } := by
  rw [TaskStore.task, TaskStore.task, applied.tasks]
  apply find?_modifyFirst
  intro task
  rfl

theorem Applied.task_other (applied : Applied id event next store after) (apart : other ≠ id) :
    after.task other = store.task other := by
  rw [TaskStore.task, TaskStore.task, applied.tasks]
  apply find?_modifyFirst_of_apart
  intro task isFound
  have same : task.id = id := of_decide_eq_true isFound
  have differs : ¬task.id = other := fun found => apart (found.symm.trans same)
  exact ⟨decide_eq_false differs, decide_eq_false differs⟩

theorem ids_nodup (safe : store.ledger.Safe) : (store.tasks.map (·.id)).Nodup := by
  have nodup := safe.ids
  rwa [TaskStore.ledger, List.map_map] at nodup

theorem task_of_mem (safe : store.ledger.Safe) {task : Task} (member : task ∈ store.tasks) :
    store.task task.id = some task := by
  cases found : store.task task.id with
  | none => exact absurd (List.find?_eq_none.mp found task member) (by simp)
  | some first =>
    have same : first.id = task.id := by
      have matched := List.find?_some found
      exact of_decide_eq_true matched
    have inTasks : first ∈ store.tasks := List.mem_of_find?_eq_some found
    rw [List.inj_on_of_nodup_map (ids_nodup safe) inTasks member same]

/-- A grant that is not revoked is drawn on a live task of its principal. -/
theorem backed_of_unrevoked (safe : store.ledger.Safe) {issued : Issued}
    (member : issued ∈ store.grants) (unrevoked : issued.revoked = false) :
    ∃ task ∈ store.tasks, task.id = issued.grant.taskId ∧
      task.principal = issued.grant.principal ∧ task.state.isLive = true ∧
      issued.grant.expiresMs ≤ task.deadlineMs := by
  obtain ⟨_, isTask, backed⟩ := safe.backed _ (List.mem_map_of_mem member)
  obtain ⟨task, inStore, rfl⟩ := List.mem_map.mp isTask
  refine ⟨task, inStore, backed.drawn, backed.principal.symm, ?_, backed.expires⟩
  cases live : task.state.isLive with
  | true => rfl
  | false =>
    have revoked : issued.revoked = true := backed.revoked live
    rw [unrevoked] at revoked
    cases revoked

theorem held_of_live {task : Task} (safe : store.ledger.Safe)
    (found : store.task task.id = some task) (live : task.state.isLive = true) {issued : Issued}
    (member : issued ∈ store.grants) (isLive : issued.revoked = false) :
    issued.grant.principal = task.principal ↔ issued.grant.taskId = task.id := by
  have inTasks : task ∈ store.tasks := List.mem_of_find?_eq_some found
  obtain ⟨backing, inStore, drawn, principal, backingLive, -⟩ :=
    backed_of_unrevoked safe member isLive
  constructor
  · intro same
    have equal : ledgerTask backing = ledgerTask task :=
      safe.eq_of_live (List.mem_map_of_mem inStore) (List.mem_map_of_mem inTasks)
        (principal.trans same) backingLive live
    exact drawn.symm.trans (congrArg Ledger.Task.id equal)
  · intro same
    have equal : backing = task :=
      List.inj_on_of_nodup_map (ids_nodup safe) inStore inTasks (drawn.trans same)
    rw [← principal, equal]

theorem mem_endedIds (safe : store.ledger.Safe) {issued : Issued} (member : issued ∈ store.grants) :
    issued.grant.id ∈ store.endedIds id ↔ issued.grant.taskId = id ∧ issued.revoked = false := by
  have nodup : (store.grants.map (·.grant.id)).Nodup := by
    have nodup := safe.grantIds
    rwa [TaskStore.ledger, List.map_map] at nodup
  constructor
  · intro listed
    obtain ⟨found, isFound, same⟩ := List.mem_map.mp listed
    obtain ⟨inGrants, chosen⟩ := List.mem_filter.mp isFound
    cases List.inj_on_of_nodup_map nodup inGrants member same
    simpa using chosen
  · intro chosen
    exact List.mem_map_of_mem (List.mem_filter.mpr ⟨member, by simpa using chosen⟩)

theorem Applied.grants_closed (safe : store.ledger.Safe)
    (applied : Applied id event next store after) (closed : next.isLive = false) :
    after.grants = store.grants.map (endOn id) := by
  rw [applied.grants, if_neg (by simp [closed])]
  apply List.map_congr_left
  intro issued member
  rw [endOn]
  by_cases drawn : issued.grant.taskId = id
  · rw [if_pos drawn]
    cases revoked : issued.revoked with
    | true =>
      split
      · rfl
      · rw [← revoked]
    | false => rw [if_pos ((mem_endedIds safe member).mpr ⟨drawn, revoked⟩)]
  · rw [if_neg drawn, if_neg fun listed => drawn ((mem_endedIds safe member).mp listed).1]

theorem Applied.ledger (safe : store.ledger.Safe) (applied : Applied id event next store after) :
    after.ledger = if next.isLive then store.ledger else store.ledger.close id := by
  obtain ⟨task, found, wasLive⟩ := applied.wasLive
  cases live : next.isLive with
  | true =>
    have tasks : after.tasks.map ledgerTask = store.tasks.map ledgerTask := by
      rw [applied.tasks]
      apply map_modifyFirst_of_find found
      rw [ledgerTask, ledgerTask, wasLive, live]
    have grants : after.grants = store.grants := by
      rw [applied.grants, if_pos live]
    rw [if_pos rfl, TaskStore.ledger, tasks, grants]
    rfl
  | false =>
    have tasks : after.tasks.map ledgerTask = (store.ledger.close id).tasks := by
      rw [applied.tasks, modifyFirst_eq_map Task.id (ids_nodup safe), List.map_map]
      show _ = (store.tasks.map ledgerTask).map _
      rw [List.map_map]
      apply List.map_congr_left
      intro item _
      by_cases same : item.id = id
      · simp [ledgerTask, same, live]
      · simp [ledgerTask, same]
    have grants : after.grants.map ledgerGrant = (store.ledger.close id).grants := by
      rw [applied.grants_closed safe live, List.map_map]
      show _ = (store.grants.map ledgerGrant).map _
      rw [List.map_map]
      apply List.map_congr_left
      intro issued _
      exact ledgerGrant_endOn id issued
    rw [if_neg Bool.false_ne_true, TaskStore.ledger, tasks, grants]

theorem Applied.safe (safe : store.ledger.Safe) (applied : Applied id event next store after) :
    after.ledger.Safe := by
  rw [applied.ledger safe]
  split
  · exact safe
  · exact safe.close id

end Applied

end EclipseOS.Policyd
