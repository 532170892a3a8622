import Mathlib.Data.List.Nodup
import Mathlib.Data.List.Pairwise
import Mathlib.Order.Defs.LinearOrder

/-! # A ledger of tasks and grants

What the task store is for. A principal works on one task at a time, a grant is
drawn on a task and ends with it, and closing a task ends all of its grants at
once. Ids, principals and times are of any type. -/

namespace EclipseOS.Policyd

variable {ι π τ : Type}

structure Ledger.Task (ι π τ : Type) where
  id : ι
  principal : π
  live : Bool
  deadline : τ
  deriving DecidableEq

structure Ledger.Grant (ι π τ : Type) where
  id : ι
  task : ι
  principal : π
  expires : τ
  revoked : Bool
  deriving DecidableEq

@[ext] structure Ledger (ι π τ : Type) where
  tasks : List (Ledger.Task ι π τ)
  grants : List (Ledger.Grant ι π τ)

namespace Ledger

def empty : Ledger ι π τ := ⟨[], []⟩

def «open» (ledger : Ledger ι π τ) (task : Task ι π τ) : Ledger ι π τ :=
  { ledger with tasks := ledger.tasks ++ [task] }

def grant (ledger : Ledger ι π τ) (grant : Grant ι π τ) : Ledger ι π τ :=
  { ledger with grants := ledger.grants ++ [grant] }

/-- Ends a task, and every grant drawn on it. -/
def close [DecidableEq ι] (ledger : Ledger ι π τ) (id : ι) : Ledger ι π τ :=
  ⟨ledger.tasks.map fun task => if task.id = id then { task with live := false } else task,
    ledger.grants.map fun grant => if grant.task = id then { grant with revoked := true } else grant⟩

/-- What a grant has to hold to while the task it is drawn on is this one. -/
structure Grant.BackedBy [LE τ] (grant : Grant ι π τ) (task : Task ι π τ) : Prop where
  drawn : task.id = grant.task
  principal : grant.principal = task.principal
  expires : grant.expires ≤ task.deadline
  revoked : task.live = false → grant.revoked = true

structure Safe [LE τ] (ledger : Ledger ι π τ) : Prop where
  ids : (ledger.tasks.map Task.id).Nodup
  oneLive : ledger.tasks.Pairwise fun left right =>
    left.principal = right.principal → ¬(left.live = true ∧ right.live = true)
  grantIds : (ledger.grants.map Grant.id).Nodup
  backed : ∀ grant ∈ ledger.grants, ∃ task ∈ ledger.tasks, grant.BackedBy task

section Close

variable [DecidableEq ι] {ledger : Ledger ι π τ}

theorem close_task_ids (id : ι) :
    (ledger.close id).tasks.map Task.id = ledger.tasks.map Task.id := by
  rw [close, List.map_map]
  refine List.map_congr_left fun task _ => ?_
  simp only [Function.comp_apply]
  split <;> rfl

theorem close_grant_ids (id : ι) :
    (ledger.close id).grants.map Grant.id = ledger.grants.map Grant.id := by
  rw [close, List.map_map]
  refine List.map_congr_left fun grant _ => ?_
  simp only [Function.comp_apply]
  split <;> rfl

theorem revoked_of_close {id : ι} {grant : Grant ι π τ} (member : grant ∈ (ledger.close id).grants)
    (drawn : grant.task = id) : grant.revoked = true := by
  rcases List.mem_map.mp member with ⟨before, -, rfl⟩
  by_cases was : before.task = id
  · rw [if_pos was]
  · rw [if_neg was] at drawn
    exact absurd drawn was

end Close

section Laws

variable [LE τ] {ledger : Ledger ι π τ}

theorem Safe.empty : (empty : Ledger ι π τ).Safe :=
  ⟨List.nodup_nil, .nil, List.nodup_nil, by simp [Ledger.empty]⟩

theorem Safe.eq_of_live (safe : ledger.Safe) {one other : Task ι π τ} (known : one ∈ ledger.tasks)
    (otherKnown : other ∈ ledger.tasks) (same : one.principal = other.principal)
    (live : one.live = true) (otherLive : other.live = true) : one = other := by
  have symm : Std.Symm fun left right : Task ι π τ =>
      left.principal = right.principal → ¬(left.live = true ∧ right.live = true) :=
    ⟨fun _ _ apart same both => apart same.symm both.symm⟩
  by_contra differ
  exact safe.oneLive.forall known otherKnown differ same ⟨live, otherLive⟩

theorem Safe.open (safe : ledger.Safe) {task : Task ι π τ}
    (fresh : ∀ other ∈ ledger.tasks, other.id ≠ task.id)
    (only : ∀ other ∈ ledger.tasks, other.principal = task.principal → other.live = false) :
    (ledger.open task).Safe where
  ids := by
    rw [Ledger.open, List.map_append, List.map_singleton]
    refine safe.ids.append (List.nodup_singleton _) ?_
    simpa using fresh
  oneLive := by
    refine List.pairwise_append.mpr ⟨safe.oneLive, List.pairwise_singleton _ _, ?_⟩
    intro other member opened isOpened same both
    rcases List.mem_singleton.mp isOpened with rfl
    rw [only other member same] at both
    exact absurd both.1 Bool.false_ne_true
  grantIds := safe.grantIds
  backed grant member := by
    rcases safe.backed grant member with ⟨backing, inTasks, backed⟩
    exact ⟨backing, List.mem_append_left _ inTasks, backed⟩

theorem Safe.grant (safe : ledger.Safe) {grant : Grant ι π τ} {task : Task ι π τ}
    (fresh : ∀ other ∈ ledger.grants, other.id ≠ grant.id) (known : task ∈ ledger.tasks)
    (backed : grant.BackedBy task) : (ledger.grant grant).Safe where
  ids := safe.ids
  oneLive := safe.oneLive
  grantIds := by
    rw [Ledger.grant, List.map_append, List.map_singleton]
    refine safe.grantIds.append (List.nodup_singleton _) ?_
    simpa using fresh
  backed other member := by
    rcases List.mem_append.mp member with old | new
    · exact safe.backed other old
    · rcases List.mem_singleton.mp new with rfl
      exact ⟨task, known, backed⟩

variable [DecidableEq ι]

theorem Safe.close (safe : ledger.Safe) (id : ι) : (ledger.close id).Safe where
  ids := by
    rw [close_task_ids]
    exact safe.ids
  oneLive := by
    refine List.pairwise_map.mpr (safe.oneLive.imp fun {left right} apart same both => ?_)
    have kept : ∀ task : Task ι π τ,
        (if task.id = id then { task with live := false } else task).principal =
          task.principal := by
      intro task
      split <;> rfl
    have wasLive : ∀ task : Task ι π τ,
        (if task.id = id then { task with live := false } else task).live = true →
          task.live = true := by
      intro task live
      split at live
      · cases live
      · exact live
    rw [kept, kept] at same
    exact apart same ⟨wasLive left both.1, wasLive right both.2⟩
  grantIds := by
    rw [close_grant_ids]
    exact safe.grantIds
  backed closed member := by
    rcases List.mem_map.mp member with ⟨grant, inGrants, rfl⟩
    rcases safe.backed grant inGrants with ⟨task, inTasks, backed⟩
    refine ⟨_, List.mem_map_of_mem inTasks, ?_⟩
    by_cases drawn : grant.task = id
    · rw [if_pos drawn, if_pos (backed.drawn.trans drawn)]
      exact ⟨backed.drawn, backed.principal, backed.expires, fun _ => rfl⟩
    · rw [if_neg drawn, if_neg (fun same => drawn (backed.drawn.symm.trans same))]
      exact backed

end Laws

end Ledger

end EclipseOS.Policyd
