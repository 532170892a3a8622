import EclipseOS.Policyd.Dispatch
import EclipseOS.Policyd.Tasks.Effects

/-! # The life of a task

Pausing, resuming and closing tasks, over whole runs of requests. A closed task stays
closed, only what a human paused is unpaused, and what the compositor is told of a close
depends on the path it took. -/

namespace EclipseOS.Policyd

open Foundation PolicyEval

/-! ## What is sent of a move -/

def isClosedState : FromPolicyd → Bool
  | .taskState _ state _ => state = "closed"
  | _ => false

def isRevocation : FromPolicyd → Bool
  | .revoked _ => true
  | _ => false

/-- The messages of an event that was applied. -/
def told (id : Ulid) (principal why : String) : TaskState → Out
  | .closed reason =>
    [(.all, .taskState id.toText "closed" reason.asStr), (.all, .revoked principal)]
  | next => [(.all, .taskState id.toText next.asStr why)]

theorem told_ne_nil (id : Ulid) (principal why : String) (next : TaskState) :
    told id principal why next ≠ [] := by
  cases next <;> exact List.cons_ne_nil _ _

theorem asStr_ne_closed {next : TaskState} (live : next.isLive = true) : next.asStr ≠ "closed" := by
  cases next with
  | closed reason => cases live
  | active | paused | draining => decide

theorem told_live {id : Ulid} {principal why : String} {next : TaskState}
    (live : next.isLive = true) :
    ∀ sent ∈ told id principal why next,
      isClosedState sent.2 = false ∧ isRevocation sent.2 = false := by
  intro sent member
  have named := asStr_ne_closed live
  cases next with
  | closed reason => cases live
  | active | paused | draining =>
    cases List.mem_singleton.mp member
    exact ⟨decide_eq_false named, rfl⟩

theorem told_all (id : Ulid) (principal why : String) (next : TaskState) :
    ∀ sent ∈ told id principal why next, sent.1 = .all := by
  intro sent member
  cases next with
  | closed reason =>
    rcases List.mem_pair.mp member with rfl | rfl
    · rfl
    · rfl
  | active | paused | draining =>
    cases List.mem_singleton.mp member
    rfl

def closedStates (out : Out) : List FromPolicyd := (out.map Prod.snd).filter isClosedState

def revocations (out : Out) : List FromPolicyd := (out.map Prod.snd).filter isRevocation

theorem closedStates_append (one other : Out) :
    closedStates (one ++ other) = closedStates one ++ closedStates other := by
  rw [closedStates, List.map_append, List.filter_append]
  rfl

theorem revocations_append (one other : Out) :
    revocations (one ++ other) = revocations one ++ revocations other := by
  rw [revocations, List.map_append, List.filter_append]
  rfl

theorem closedStates_told_live {id : Ulid} {principal why : String} {next : TaskState}
    (live : next.isLive = true) : closedStates (told id principal why next) = [] := by
  apply List.filter_eq_nil_iff.mpr
  intro message member
  obtain ⟨sent, inTold, rfl⟩ := List.mem_map.mp member
  simp [(told_live live sent inTold).1]

theorem revocations_told_live {id : Ulid} {principal why : String} {next : TaskState}
    (live : next.isLive = true) : revocations (told id principal why next) = [] := by
  apply List.filter_eq_nil_iff.mpr
  intro message member
  obtain ⟨sent, inTold, rfl⟩ := List.mem_map.mp member
  simp [(told_live live sent inTold).2]

section Lifecycle

variable [Ed25519]

/-- Events applied to a task one after another, and what is sent of them. -/
inductive Moves (id : Ulid) (principal : String) : TaskStore → Out → TaskStore → Prop
  | none (store : TaskStore) : Moves id principal store [] store
  | move {store middle after : TaskStore} {event : TaskEvent} {next : TaskState} {out : Out}
      (why : String) (applied : Applied id event next store middle)
      (rest : Moves id principal middle out after) :
      Moves id principal store (told id principal why next ++ out) after

theorem Moves.append {id : Ulid} {principal : String} {store middle after : TaskStore}
    {first second : Out} (one : Moves id principal store first middle)
    (other : Moves id principal middle second after) :
    Moves id principal store (first ++ second) after := by
  induction one with
  | none => exact other
  | move why applied _ induction =>
    rw [List.append_assoc]
    exact .move why applied (induction other)

theorem Moves.eq_of_nil {id : Ulid} {principal : String} {store after : TaskStore} {out : Out}
    (moves : Moves id principal store out after) (quiet : out = []) : after = store := by
  cases moves with
  | none => rfl
  | move why _ _ => exact absurd (List.append_eq_nil_iff.mp quiet).1 (told_ne_nil _ _ _ _)

section Moves

variable {id other : Ulid} {principal : String} {store after : TaskStore} {out : Out}

theorem Moves.sent_all (moves : Moves id principal store out after) :
    ∀ sent ∈ out, sent.1 = .all := by
  induction moves with
  | none => exact fun _ member => absurd member List.not_mem_nil
  | move why _ _ induction =>
    intro sent member
    rcases List.mem_append.mp member with now | later
    · exact told_all _ _ _ _ sent now
    · exact induction sent later

theorem Moves.of_closed (moves : Moves id principal store out after) {task : Task}
    (found : store.task id = some task) (closed : task.state.isLive = false) :
    out = [] ∧ after = store := by
  cases moves with
  | none => exact ⟨rfl, rfl⟩
  | move why applied _ =>
    obtain ⟨moved, isMoved, live⟩ := applied.wasLive
    cases found.symm.trans isMoved
    rw [live] at closed
    cases closed

theorem Moves.task_other (moves : Moves id principal store out after) (apart : other ≠ id) :
    after.task other = store.task other := by
  induction moves with
  | none => rfl
  | move why applied _ induction => exact induction.trans (applied.task_other apart)

theorem Moves.safe (moves : Moves id principal store out after) (safe : store.ledger.Safe) :
    after.ledger.Safe := by
  induction moves with
  | none => exact safe
  | move why applied _ induction => exact induction (applied.safe safe)

theorem Moves.closed_stays (moves : Moves id principal store out after) {task : Task}
    (found : store.task task.id = some task) (closed : task.state.isLive = false) :
    after.task task.id = some task := by
  by_cases same : task.id = id
  · rw [(moves.of_closed (same ▸ found) closed).2]
    exact found
  · rw [moves.task_other same]
    exact found

theorem Moves.ended (moves : Moves id principal store out after) (safe : store.ledger.Safe)
    {task : Task} {reason : CloseReason} (found : store.task id = some task)
    (live : task.state.isLive = true)
    (closed : after.task id = some { task with state := .closed reason }) :
    closedStates out = [.taskState id.toText "closed" reason.asStr] ∧
      revocations out = [.revoked principal] ∧ after.grants = store.grants.map (endOn id) := by
  induction moves generalizing task with
  | none =>
    have same := Option.some.inj (found.symm.trans closed)
    rw [same] at live
    cases live
  | @move store middle after event next out why applied rest induction =>
    have moved : middle.task id = some { task with state := next } := by
      rw [applied.task_self, found]
      rfl
    cases isLive : next.isLive with
    | true =>
      obtain ⟨states, revoked, grants⟩ := induction (applied.safe safe) moved isLive closed
      have kept : middle.grants = store.grants := by
        rw [applied.grants, if_pos isLive]
      rw [closedStates_append, revocations_append, closedStates_told_live isLive,
        revocations_told_live isLive, ← kept]
      exact ⟨states, revoked, grants⟩
    | false =>
      obtain ⟨rfl, rfl⟩ := rest.of_closed moved isLive
      have same := congrArg Task.state (Option.some.inj (moved.symm.trans closed))
      have isClosed : next = .closed reason := same
      rw [List.append_nil, isClosed]
      exact ⟨rfl, rfl, applied.grants_closed safe isLive⟩

end Moves

/-! ## What is asked of the store -/

theorem orRefused_ok {α : Type} {op : Op α} {answer : Except TaskError α} {store after : TaskStore}
    (run : (orRefused op).run store = .ok answer after) :
    match answer with
    | .ok value => op.run store = .ok value after
    | .error error => op.run store = .error error after ∧ ¬error.IsStore := by
  change orRefused op store = _ at run
  rw [orRefused] at run
  cases ran : op store with
  | ok value middle =>
    rw [ran] at run
    cases run
    exact ran
  | error error middle =>
    rw [ran] at run
    cases error with
    | store failure => cases run
    | _ =>
      cases run
      refine ⟨ran, ?_⟩
      rintro ⟨failure, isFailure⟩
      cases isFailure

theorem onStore_ok {α : Type} {op : Op α} {value : α} {before after : Daemon}
    (run : (onStore op).run before = .ok value after) :
    ∃ store, op.run before.store = .ok value store ∧ after = { before with store } := by
  change onStore op before = _ at run
  rw [onStore] at run
  cases ran : op before.store with
  | ok made store =>
    rw [ran] at run
    cases run
    exact ⟨store, ran, rfl⟩
  | error error store =>
    rw [ran] at run
    cases run

theorem task_of_find {store : TaskStore} {text : String} {found : Task}
    (isFound : find store text = some found) : store.task found.id = some found := by
  have named : found.id.toText = text := by
    have matched := List.find?_some isFound
    exact of_decide_eq_true matched
  have alike : (fun task : Task => decide (task.id = found.id)) =
      fun task : Task => decide (task.id.toText = text) := by
    funext task
    rw [← named]
    exact decide_eq_decide.mpr Ulid.toText_injective.eq_iff.symm
  rw [TaskStore.task, alike]
  exact isFound

variable [Blake3]

theorem transition_ok {id : Ulid} {principal why : String} {event : TaskEvent} {out : Out}
    {store after : TaskStore}
    (run : (transition id principal event why).run store = .ok out after) :
    Moves id principal store out after := by
  obtain ⟨answer, middle, refusable, rest⟩ := of_run_bind run
  have ran := orRefused_ok refusable
  cases answer with
  | error error =>
    cases rest
    cases (apply_error ran.1).resolve_left ran.2
    exact .none _
  | ok next =>
    have moved : Moves id principal store (told id principal why next ++ []) middle :=
      .move why (apply_ok ran) (.none _)
    rw [List.append_nil] at moved
    cases next <;> (cases rest; exact moved)

/-! ## Runs -/

inductive Request where
  | pause (req : UInt64) (task : String)
  | unpause (req : UInt64) (task : String)
  | cancel (req : UInt64) (task : String) (mode : CancelMode)
  | exited (req : UInt64) (task how : String)
  | revoke (principal : String)
  deriving DecidableEq

namespace Request

def serve : Request → Served Out
  | pause req task => Policyd.pause req task
  | unpause req task => Policyd.unpause req task
  | cancel req task mode => Policyd.cancel req task mode
  | exited req task how => Policyd.exited req task how
  | revoke principal => onStore (Policyd.revoke principal)

/-- The compositor asks; agentd asks for the others. -/
def fromCompositor : Request → Bool
  | unpause .. | revoke .. => true
  | pause .. | cancel .. | exited .. => false

end Request

structure Event where
  before : Daemon
  request : Request
  out : Out
  after : Daemon

/-- The requests served, up to one whose record could not be written. -/
def events (daemon : Daemon) : List Request → List Event
  | [] => []
  | request :: requests =>
    match request.serve.run daemon with
    | .ok out after => ⟨daemon, request, out, after⟩ :: events after requests
    | .error _ _ => []

namespace Event

def heard (event : Event) : List FromPolicyd :=
  (event.out.filter fun sent =>
    sent.1 = .all ∨ (sent.1 = .asker ∧ event.request.fromCompositor)).map Prod.snd

def Done (event : Event) (req : UInt64) : Prop := (To.asker, FromPolicyd.done req) ∈ event.out

def Pauses (event : Event) (task : String) : Prop :=
  ∃ req, event.request = .pause req task ∧ event.Done req

def Unpauses (event : Event) (task : String) : Prop :=
  ∃ req, event.request = .unpause req task ∧ event.Done req

structure Closes (event : Event) (task : Task) (reason : CloseReason) : Prop where
  found : event.before.store.task task.id = some task
  live : task.state.isLive = true
  closed : event.after.store.task task.id = some { task with state := .closed reason }

end Event

/-! ## What each request does -/

def Refuses (req : UInt64) (before : Daemon) (out : Out) (after : Daemon) : Prop :=
  after = before ∧ ∃ why, out = refused req why

/-- Done: a task was moved, and the marks of what humans paused were changed. -/
def Moved (text : String) (req : UInt64) (mark : List String → List String) (before : Daemon)
    (out : Out) (after : Daemon) : Prop :=
  ∃ found sent store, find before.store text = some found ∧
    Moves found.id found.principal before.store sent store ∧
    out = (.asker, .done req) :: sent ∧
    after = ⟨{ before.dispatch with paused := mark before.dispatch.paused }, store⟩

section Requests

variable {req : UInt64} {text : String} {before after : Daemon} {out : Out}

theorem moved_or_refused {found : Task} {event : TaskEvent} {reason : String}
    {mark : List String → List String} (isFound : find before.store text = some found)
    (run : (do
      let sent ← onStore (transition found.id found.principal event "human")
      if sent = [] then
        return refused req reason
      else
        setDispatch fun dispatch => { dispatch with paused := mark dispatch.paused }
        return (.asker, .done req) :: sent : Served Out).run before = .ok out after) :
    Refuses req before out after ∨ Moved text req mark before out after := by
  obtain ⟨sent, middle, moved, rest⟩ := of_run_bind run
  obtain ⟨store, ran, rfl⟩ := onStore_ok moved
  have moves := transition_ok ran
  split at rest
  · rename_i quiet
    cases rest
    rw [moves.eq_of_nil quiet]
    exact Or.inl ⟨rfl, _, rfl⟩
  · cases rest
    exact Or.inr ⟨found, sent, store, isFound, moves, rfl, rfl⟩

theorem pause_ok (run : (pause req text).run before = .ok out after) :
    Refuses req before out after ∨ Moved text req (text :: ·) before out after := by
  have read : (get : Served Daemon).run before = .ok before before := rfl
  rw [pause, run_bind_ok read] at run
  cases isFound : find before.store text with
  | none =>
    rw [isFound] at run
    cases run
    exact Or.inl ⟨rfl, _, rfl⟩
  | some found =>
    simp only [isFound] at run
    split at run
    · cases run
      exact Or.inl ⟨rfl, _, rfl⟩
    · exact moved_or_refused isFound run

theorem unpause_ok (run : (unpause req text).run before = .ok out after) :
    Refuses req before out after ∨
      (text ∈ before.dispatch.paused ∧
        Moved text req (·.filter (· ≠ text)) before out after) := by
  have read : (get : Served Daemon).run before = .ok before before := rfl
  rw [unpause, run_bind_ok read] at run
  cases isFound : find before.store text with
  | none =>
    rw [isFound] at run
    cases run
    exact Or.inl ⟨rfl, _, rfl⟩
  | some found =>
    simp only [isFound] at run
    split at run
    · cases run
      exact Or.inl ⟨rfl, _, rfl⟩
    · split at run
      · cases run
        exact Or.inl ⟨rfl, _, rfl⟩
      · rename_i _ marked
        exact (moved_or_refused isFound run).imp_right fun moved => ⟨not_not.mp marked, moved⟩

theorem cancel_ok {mode : CancelMode} (run : (cancel req text mode).run before = .ok out after) :
    Refuses req before out after ∨ Moved text req (·.filter (· ≠ text)) before out after := by
  have read : (get : Served Daemon).run before = .ok before before := rfl
  rw [cancel, run_bind_ok read] at run
  cases isFound : find before.store text with
  | none =>
    rw [isFound] at run
    cases run
    exact Or.inl ⟨rfl, _, rfl⟩
  | some found =>
    simp only [isFound] at run
    split at run
    · cases run
      exact Or.inl ⟨rfl, _, rfl⟩
    · exact moved_or_refused isFound run

theorem exited_ok {how : String} (run : (exited req text how).run before = .ok out after) :
    Refuses req before out after ∨ (after = before ∧ out = [(.asker, .done req)]) ∨
      Moved text req (·.filter (· ≠ text)) before out after := by
  have read : (get : Served Daemon).run before = .ok before before := rfl
  rw [exited, run_bind_ok read] at run
  cases isFound : find before.store text with
  | none =>
    rw [isFound] at run
    cases run
    exact Or.inl ⟨rfl, _, rfl⟩
  | some found =>
    simp only [isFound] at run
    split at run
    · cases run
      exact Or.inr (Or.inl ⟨rfl, rfl⟩)
    · obtain ⟨sent, middle, moved, rest⟩ := of_run_bind run
      obtain ⟨store, ran, rfl⟩ := onStore_ok moved
      cases rest
      refine Or.inr (Or.inr ⟨found, sent, store, isFound, ?_, rfl, rfl⟩)
      split at ran
      · split at ran
        · obtain ⟨drained, middle, drain, ran⟩ := of_run_bind ran
          obtain ⟨ended, last, close, ran⟩ := of_run_bind ran
          cases ran
          exact (transition_ok drain).append (transition_ok close)
        · rw [pure_bind] at ran
          obtain ⟨ended, last, close, ran⟩ := of_run_bind ran
          cases ran
          exact transition_ok close
      · exact transition_ok ran

theorem revoke_ok {principal : String} {store last : TaskStore}
    (run : (revoke principal).run store = .ok out last) :
    match store.liveTask principal with
    | none => last = store ∧ out = [(.asker, .revoked principal)]
    | some task =>
      (∃ next, Applied task.id .cancel next store last) ∧
        out = [(.asker, .revoked principal),
          (.agentd, .taskState task.id.toText "closed" "cancelled")] := by
  have read : (get : Op TaskStore).run store = .ok store store := rfl
  rw [revoke, run_bind_ok read] at run
  obtain ⟨cancelled, middle, ran, rest⟩ := of_run_bind run
  rw [cancelPrincipal, run_bind_ok read] at ran
  cases live : store.liveTask principal with
  | none =>
    rw [live] at ran rest
    cases ran
    cases rest
    exact ⟨rfl, rfl⟩
  | some task =>
    rw [live] at rest
    simp only [live] at ran
    obtain ⟨next, closed, applied, ran⟩ := of_run_bind ran
    cases ran
    cases rest
    exact ⟨⟨next, apply_ok applied⟩, rfl⟩

end Requests

/-! ## What each event does -/

namespace Event

variable {event : Event} {task : Task} {reason : CloseReason} {text : String}

def Served (event : Event) : Prop :=
  event.request.serve.run event.before = .ok event.out event.after

/-- A principal with a live task is cancelled. -/
def CancelsPrincipal (event : Event) : Prop :=
  ∃ principal, event.request = .revoke principal ∧
    event.before.store.liveTask principal ≠ none

/-- The compositor is sent that the task closed, and the revocation of its grants: of the
principal that holds them and no other live ones. -/
structure Tells (event : Event) (task : Task) (reason : CloseReason) : Prop where
  closed : event.heard.filter isClosedState =
    [.taskState task.id.toText "closed" reason.asStr]
  revoked : event.heard.filter isRevocation = [.revoked task.principal]
  held : ∀ issued ∈ event.before.store.grants, issued.revoked = false →
    (issued.grant.principal = task.principal ↔ issued.grant.taskId = task.id)
  ended : event.after.store.grants = event.before.store.grants.map (endOn task.id)

/-- What an event did to the store: nothing, moves of one task, or a principal's cancel. -/
theorem Served.cases (served : event.Served) :
    event.after.store = event.before.store ∨
      (∃ found req sent, event.before.store.task found.id = some found ∧
        Moves found.id found.principal event.before.store sent event.after.store ∧
        event.out = (.asker, .done req) :: sent) ∨
      ∃ principal task next, event.request = .revoke principal ∧
        event.before.store.liveTask principal = some task ∧
        Applied task.id .cancel next event.before.store event.after.store ∧
        event.out = [(.asker, .revoked principal),
          (.agentd, .taskState task.id.toText "closed" "cancelled")] := by
  obtain ⟨before, request, out, after⟩ := event
  have moving : ∀ {text req mark}, Moved text req mark before out after →
      ∃ found req sent, before.store.task found.id = some found ∧
        Moves found.id found.principal before.store sent after.store ∧
        out = (.asker, .done req) :: sent := by
    intro text req mark ⟨found, sent, store, isFound, moves, isOut, isAfter⟩
    rw [isAfter]
    exact ⟨found, req, sent, task_of_find isFound, moves, isOut⟩
  cases request with
  | pause req text =>
    rcases pause_ok served with ⟨same, -⟩ | moved
    · exact Or.inl (congrArg Daemon.store same)
    · exact Or.inr (Or.inl (moving moved))
  | unpause req text =>
    rcases unpause_ok served with ⟨same, -⟩ | ⟨-, moved⟩
    · exact Or.inl (congrArg Daemon.store same)
    · exact Or.inr (Or.inl (moving moved))
  | cancel req text mode =>
    rcases cancel_ok served with ⟨same, -⟩ | moved
    · exact Or.inl (congrArg Daemon.store same)
    · exact Or.inr (Or.inl (moving moved))
  | exited req text how =>
    rcases exited_ok served with ⟨same, -⟩ | ⟨same, -⟩ | moved
    · exact Or.inl (congrArg Daemon.store same)
    · exact Or.inl (congrArg Daemon.store same)
    · exact Or.inr (Or.inl (moving moved))
  | revoke principal =>
    obtain ⟨store, ran, isAfter⟩ := onStore_ok served
    cases (show after = { before with store } from isAfter)
    have revoked := revoke_ok ran
    cases live : before.store.liveTask principal with
    | none =>
      rw [live] at revoked
      exact Or.inl revoked.1
    | some task =>
      rw [live] at revoked
      obtain ⟨⟨next, applied⟩, sent⟩ := revoked
      exact Or.inr (Or.inr ⟨principal, task, next, rfl, live, applied, sent⟩)

theorem Served.safe (served : event.Served) (safe : event.before.store.ledger.Safe) :
    event.after.store.ledger.Safe := by
  rcases served.cases with same | ⟨found, req, sent, -, moves, -⟩ | ⟨_, _, _, -, -, applied, -⟩
  · rw [same]
    exact safe
  · exact moves.safe safe
  · exact applied.safe safe

theorem Served.closed_stays (served : event.Served)
    (found : event.before.store.task task.id = some task) (closed : task.state.isLive = false) :
    event.after.store.task task.id = some task := by
  rcases served.cases with same | ⟨_, req, sent, -, moves, -⟩ | ⟨_, other, _, -, -, applied, -⟩
  · rw [same]
    exact found
  · exact moves.closed_stays found closed
  · have moves : Moves other.id "" event.before.store _ event.after.store :=
      .move "" applied (.none _)
    exact moves.closed_stays found closed

omit [Blake3] in
theorem heard_filter {req : UInt64} {sent : Out} {kind : FromPolicyd → Bool}
    (isOut : event.out = (.asker, .done req) :: sent) (all : ∀ message ∈ sent, message.1 = .all)
    (other : kind (.done req) = false) :
    event.heard.filter kind = (sent.map Prod.snd).filter kind := by
  have kept : sent.filter (fun message =>
      message.1 = .all ∨ (message.1 = .asker ∧ event.request.fromCompositor)) = sent := by
    apply List.filter_eq_self.mpr
    intro message member
    simp [all message member]
  rw [heard, isOut, List.filter_cons, kept]
  split
  · rw [List.map_cons, List.filter_cons_of_neg (by simp [other])]
  · rfl

theorem Served.tells (served : event.Served) (safe : event.before.store.ledger.Safe)
    (closes : event.Closes task reason) (other : ¬event.CancelsPrincipal) :
    event.Tells task reason := by
  rcases served.cases with same | ⟨found, req, sent, isFound, moves, isOut⟩ |
    ⟨principal, _, _, isRevoke, live, -⟩
  · have kept := closes.found.symm.trans (same ▸ closes.closed)
    have live := closes.live
    rw [Option.some.inj kept] at live
    cases live
  · have isSame : found.id = task.id := by
      by_contra apart
      have kept := closes.closed.symm.trans ((moves.task_other (Ne.symm apart)).trans closes.found)
      have live := closes.live
      rw [← Option.some.inj kept] at live
      cases live
    rw [isSame] at isFound moves
    cases closes.found.symm.trans isFound
    obtain ⟨states, revoked, grants⟩ := moves.ended safe closes.found closes.live closes.closed
    refine ⟨?_, ?_, fun issued => held_of_live safe closes.found closes.live, grants⟩
    · rw [heard_filter isOut moves.sent_all rfl]
      exact states
    · rw [heard_filter isOut moves.sent_all rfl]
      exact revoked
  · refine absurd ⟨principal, isRevoke, ?_⟩ other
    rw [live]
    exact Option.some_ne_none _

theorem Served.untold (served : event.Served) (safe : event.before.store.ledger.Safe)
    (cancels : event.CancelsPrincipal) :
    ∃ task, event.Closes task .cancelled ∧ event.heard.filter isClosedState = [] := by
  obtain ⟨before, request, out, after⟩ := event
  obtain ⟨principal, isRevoke, someLive⟩ := cancels
  cases (show request = .revoke principal from isRevoke)
  obtain ⟨task, live⟩ := Option.ne_none_iff_exists'.mp someLive
  obtain ⟨store, ran, isAfter⟩ := onStore_ok served
  cases (show after = { before with store } from isAfter)
  have revoked := revoke_ok ran
  rw [live] at revoked
  obtain ⟨⟨next, applied⟩, sent⟩ := revoked
  have isLive : task.state.isLive = true := by
    have matched := List.find?_some live
    exact (of_decide_eq_true matched).2
  have found : before.store.task task.id = some task :=
    task_of_mem safe (List.mem_of_find?_eq_some live)
  obtain ⟨moving, isMoving, moved⟩ := applied.moved
  cases found.symm.trans isMoving
  cases (TaskState.transition_cancel isLive).symm.trans moved
  refine ⟨task, ⟨found, isLive, ?_⟩, ?_⟩
  · show store.task task.id = _
    rw [applied.task_self, found]
    rfl
  · rw [heard, sent]
    rfl

/-! ### What humans paused -/

omit [Blake3] in
theorem not_done_of_refuses {req : UInt64}
    (refuses : Refuses req event.before event.out event.after) :
    ¬event.Done req := by
  obtain ⟨-, why, isOut⟩ := refuses
  intro done
  rw [Done, isOut] at done
  cases List.mem_singleton.mp done

theorem Served.marked_of_unpauses (served : event.Served) (unpauses : event.Unpauses text) :
    text ∈ event.before.dispatch.paused := by
  obtain ⟨req, isUnpause, done⟩ := unpauses
  rw [Served, isUnpause] at served
  rcases unpause_ok served with refuses | ⟨marked, -⟩
  · exact absurd done (not_done_of_refuses refuses)
  · exact marked

theorem Served.pauses_or_marked (served : event.Served)
    (marked : text ∈ event.after.dispatch.paused) :
    event.Pauses text ∨ (text ∈ event.before.dispatch.paused ∧ ¬event.Unpauses text) := by
  have same : event.after = event.before → text ∈ event.before.dispatch.paused := by
    intro same
    rwa [same] at marked
  have moved : ∀ {id req mark}, Moved id req mark event.before event.out event.after →
      text ∈ mark event.before.dispatch.paused := by
    intro id req mark ⟨found, sent, store, isFound, moves, isOut, isAfter⟩
    rwa [isAfter] at marked
  rw [Served] at served
  cases isRequest : event.request with
  | pause req id =>
    rw [isRequest] at served
    have other : ¬event.Unpauses text := by
      intro ⟨_, isUnpause, _⟩
      cases isRequest.symm.trans isUnpause
    rcases pause_ok served with refuses | pauses
    · exact Or.inr ⟨same refuses.1, other⟩
    · rcases List.mem_cons.mp (moved pauses) with isText | was
      · obtain ⟨found, sent, store, isFound, moves, isOut, isAfter⟩ := pauses
        left
        refine ⟨req, isText ▸ isRequest, ?_⟩
        rw [Done, isOut]
        exact List.mem_cons_self
      · exact Or.inr ⟨was, other⟩
  | unpause req id =>
    rw [isRequest] at served
    right
    rcases unpause_ok served with refuses | ⟨-, unpauses⟩
    · refine ⟨same refuses.1, ?_⟩
      intro ⟨_, isUnpause, done⟩
      cases isRequest.symm.trans isUnpause
      exact not_done_of_refuses refuses done
    · obtain ⟨was, differs⟩ := List.mem_filter.mp (moved unpauses)
      refine ⟨was, ?_⟩
      intro ⟨_, isUnpause, _⟩
      cases isRequest.symm.trans isUnpause
      exact of_decide_eq_true differs rfl
  | cancel req id mode =>
    rw [isRequest] at served
    have other : ¬event.Unpauses text := by
      intro ⟨_, isUnpause, _⟩
      cases isRequest.symm.trans isUnpause
    rcases cancel_ok served with refuses | cancels
    · exact Or.inr ⟨same refuses.1, other⟩
    · exact Or.inr ⟨(List.mem_filter.mp (moved cancels)).1, other⟩
  | exited req id how =>
    rw [isRequest] at served
    have other : ¬event.Unpauses text := by
      intro ⟨_, isUnpause, _⟩
      cases isRequest.symm.trans isUnpause
    rcases exited_ok served with refuses | idle | exits
    · exact Or.inr ⟨same refuses.1, other⟩
    · exact Or.inr ⟨same idle.1, other⟩
    · exact Or.inr ⟨(List.mem_filter.mp (moved exits)).1, other⟩
  | revoke principal =>
    rw [isRequest] at served
    obtain ⟨store, ran, isAfter⟩ := onStore_ok served
    right
    refine ⟨?_, ?_⟩
    · rwa [isAfter] at marked
    · intro ⟨_, isUnpause, _⟩
      cases isRequest.symm.trans isUnpause

end Event

/-! ## Whole runs -/

section Runs

variable {daemon : Daemon} {requests : List Request}

theorem events_cons {event : Event} {rest : List Event}
    (isCons : events daemon requests = event :: rest) :
    ∃ others, requests = event.request :: others ∧ event.before = daemon ∧ event.Served ∧
      events event.after others = rest := by
  cases requests with
  | nil => cases isCons
  | cons request requests =>
    rw [events] at isCons
    cases run : request.serve.run daemon with
    | ok out after =>
      rw [run] at isCons
      cases isCons
      exact ⟨requests, rfl, rfl, run, rfl⟩
    | error error after =>
      rw [run] at isCons
      cases isCons

theorem events_request : ∀ event ∈ events daemon requests, event.request ∈ requests := by
  intro event member
  induction isRun : events daemon requests generalizing daemon requests with
  | nil => rw [isRun] at member; cases member
  | cons first rest induction =>
    obtain ⟨others, rfl, -, -, isRest⟩ := events_cons isRun
    rw [isRun] at member
    rcases List.mem_cons.mp member with rfl | later
    · exact List.mem_cons_self
    · rw [← isRest] at later
      exact List.mem_cons_of_mem _ (induction later isRest)

theorem events_keep (holds : Daemon → Prop) (start : holds daemon)
    (step : ∀ event : Event, event.Served → holds event.before → holds event.after) :
    ∀ event ∈ events daemon requests, event.Served ∧ holds event.before ∧ holds event.after := by
  intro event member
  induction isRun : events daemon requests generalizing daemon requests with
  | nil => rw [isRun] at member; cases member
  | cons first rest induction =>
    obtain ⟨others, rfl, rfl, served, isRest⟩ := events_cons isRun
    have next := step first served start
    rw [isRun] at member
    rcases List.mem_cons.mp member with rfl | later
    · exact ⟨served, start, next⟩
    · rw [← isRest] at later
      exact induction next later isRest

theorem events_split {past rest : List Event} {event : Event}
    (split : events daemon requests = past ++ event :: rest) :
    ∃ others, events event.before others = event :: rest := by
  induction past generalizing daemon requests with
  | nil =>
    obtain ⟨_, -, rfl, -, -⟩ := events_cons split
    exact ⟨requests, split⟩
  | cons first past induction =>
    obtain ⟨others, -, -, -, isRest⟩ := events_cons split
    exact induction isRest

/-- Somewhere in the past the task was paused, and not unpaused since. -/
def PausedIn (past : List Event) (text : String) : Prop :=
  ∃ earlier pause later, past = earlier ++ pause :: later ∧ pause.Pauses text ∧
    ∀ event ∈ later, ¬event.Unpauses text

omit [Blake3] in
theorem PausedIn.append {past : List Event} {event : Event} {text : String}
    (paused : PausedIn past text) (kept : ¬event.Unpauses text) :
    PausedIn (past ++ [event]) text := by
  obtain ⟨earlier, pause, later, rfl, pauses, since⟩ := paused
  refine ⟨earlier, pause, later ++ [event], by simp, pauses, ?_⟩
  intro other member
  rcases List.mem_append.mp member with before | now
  · exact since other before
  · cases List.mem_singleton.mp now
    exact kept

theorem pausedIn_of_marked {past more rest : List Event} {event : Event}
    (marked : ∀ text ∈ daemon.dispatch.paused, PausedIn past text)
    (split : events daemon requests = more ++ event :: rest) :
    ∀ text ∈ event.before.dispatch.paused, PausedIn (past ++ more) text := by
  induction more generalizing daemon requests past with
  | nil =>
    obtain ⟨_, -, rfl, -, -⟩ := events_cons split
    rwa [List.append_nil]
  | cons first more induction =>
    obtain ⟨others, -, rfl, served, isRest⟩ := events_cons split
    have next : ∀ text ∈ first.after.dispatch.paused, PausedIn (past ++ [first]) text := by
      intro text marks
      rcases served.pauses_or_marked marks with pauses | ⟨was, kept⟩
      · exact ⟨past, first, [], rfl, pauses, fun _ member => absurd member List.not_mem_nil⟩
      · exact (marked text was).append kept
    have reached := induction next isRest
    rwa [List.append_assoc] at reached

/-- What is promised of a run: only what was paused and not unpaused since is unpaused, a
closed task stays closed, and the compositor is told of every close. -/
structure InStep (run : List Event) : Prop where
  unpaused : ∀ past event rest text, run = past ++ event :: rest → event.Unpauses text →
    PausedIn past text
  final : ∀ past event rest task, run = past ++ event :: rest →
    event.before.store.task task.id = some task → task.state.isLive = false →
    ∀ later ∈ event :: rest, later.after.store.task task.id = some task
  told : ∀ event ∈ run, ∀ task reason, event.Closes task reason → event.Tells task reason

/-- The promise is kept exactly by the runs in which no principal with a live task is
cancelled. -/
theorem inStep_iff (safe : daemon.store.ledger.Safe) (unmarked : daemon.dispatch.paused = []) :
    InStep (events daemon requests) ↔
      ∀ event ∈ events daemon requests, ¬event.CancelsPrincipal := by
  have kept : ∀ event ∈ events daemon requests, event.Served ∧ event.before.store.ledger.Safe ∧
      event.after.store.ledger.Safe :=
    events_keep (fun daemon => daemon.store.ledger.Safe) safe fun event served => served.safe
  constructor
  · intro inStep event member cancels
    obtain ⟨served, safe, -⟩ := kept event member
    obtain ⟨task, closes, unheard⟩ := served.untold safe cancels
    have heard := (inStep.told event member task .cancelled closes).closed
    rw [unheard] at heard
    cases heard
  · intro others
    refine ⟨?_, ?_, ?_⟩
    · intro past event rest text split unpauses
      have member : event ∈ events daemon requests := by
        rw [split]
        exact List.mem_append_right _ List.mem_cons_self
      have marks := (kept event member).1.marked_of_unpauses unpauses
      have none : ∀ text ∈ daemon.dispatch.paused, PausedIn [] text := by
        rw [unmarked]
        exact fun _ absurdly => absurd absurdly List.not_mem_nil
      exact pausedIn_of_marked none split text marks
    · intro past event rest task split found closed later member
      obtain ⟨others, isRun⟩ := events_split split
      rw [← isRun] at member
      have stays := events_keep (fun daemon => daemon.store.task task.id = some task) found
        (fun event served found => served.closed_stays found closed) later member
      exact stays.2.2
    · intro event member task reason closes
      obtain ⟨served, safe, -⟩ := kept event member
      exact served.tells safe closes (others event member)

/-- A principal has one task at work at most, and a grant that is not revoked is drawn on a
live task of its own principal, which it does not outlive. -/
structure GrantsBacked (store : TaskStore) : Prop where
  oneLive : ∀ one ∈ store.tasks, ∀ other ∈ store.tasks, one.principal = other.principal →
    one.state.isLive = true → other.state.isLive = true → one = other
  backed : ∀ issued ∈ store.grants, issued.revoked = false → ∃ task ∈ store.tasks,
    task.id = issued.grant.taskId ∧ task.principal = issued.grant.principal ∧
      task.state.isLive = true ∧ issued.grant.expiresMs ≤ task.deadlineMs

omit [Blake3] in
theorem grantsBacked_of_safe {store : TaskStore} (safe : store.ledger.Safe) :
    GrantsBacked store where
  oneLive one isOne other isOther principal oneLive otherLive := by
    have equal : ledgerTask one = ledgerTask other :=
      safe.eq_of_live (List.mem_map_of_mem isOne) (List.mem_map_of_mem isOther) principal
        oneLive otherLive
    exact List.inj_on_of_nodup_map (ids_nodup safe) isOne isOther
      (congrArg Ledger.Task.id equal)
  backed _ := backed_of_unrevoked safe

/-- No run of requests leaves a grant without a live task behind it. -/
theorem requests_grantsBacked (safe : daemon.store.ledger.Safe) :
    ∀ event ∈ events daemon requests, GrantsBacked event.after.store := by
  intro event member
  have kept := events_keep (fun daemon => daemon.store.ledger.Safe) safe
    (fun event served => served.safe) event member
  exact grantsBacked_of_safe kept.2.2

end Runs

end Lifecycle

section Working

local instance workingHash : Blake3 := startDigest
local instance workingKey : Ed25519 := soleKey

def workingTask : Task :=
  ⟨zeroBytes 16, "agent:ref", .human, "", "", none, none, 0, .active, 0, 1, "", .default⟩

/-- A daemon with one task at work, and its grant. -/
def working : Daemon where
  dispatch := ⟨[], [], [], [], [], 1⟩
  store :=
    { audit := ⟨[], [], []⟩
      tasks := [workingTask]
      grants :=
        [⟨{ askedGrant workingTask.id [] 1 0 false with principal := "agent:ref" }, [], false⟩]
      signing := ()
      recent := []
      hashes := fun _ => none }

theorem working_safe : working.store.ledger.Safe where
  ids := List.nodup_singleton _
  oneLive := List.pairwise_singleton _ _
  grantIds := List.nodup_singleton _
  backed := by
    intro grant member
    cases List.mem_singleton.mp member
    exact ⟨_, List.mem_singleton_self _, rfl, rfl, by decide, by decide⟩

theorem inStep_working :
    InStep (events working [.pause 1 workingTask.id.toText, .unpause 2 workingTask.id.toText,
      .exited 3 workingTask.id.toText "completed"]) := by
  apply (inStep_iff working_safe rfl).mpr
  intro event member ⟨principal, isRevoke, _⟩
  have asked := events_request event member
  rw [isRevoke] at asked
  simp at asked

theorem requests_grantsBacked_working :
    (events working [.pause 1 workingTask.id.toText,
      .exited 3 workingTask.id.toText "completed"]).length = 2 ∧
    ∀ event ∈ events working [.pause 1 workingTask.id.toText,
      .exited 3 workingTask.id.toText "completed"], GrantsBacked event.after.store :=
  ⟨by decide +kernel, requests_grantsBacked working_safe⟩

/-- The compositor cancels a principal at work and is not told that its task closed. -/
theorem not_inStep_cancelled : ¬InStep (events working [.revoke "agent:ref"]) := by
  intro inStep
  have served : (events working [.revoke "agent:ref"]).length = 1 := by decide +kernel
  obtain ⟨event, isRun⟩ := List.length_eq_one_iff.mp served
  obtain ⟨_, isRequest, isBefore, wasServed, -⟩ := events_cons isRun
  have cancels : event.CancelsPrincipal :=
    ⟨"agent:ref", (List.cons.inj isRequest).1.symm, by rw [isBefore]; decide +kernel⟩
  obtain ⟨task, closes, unheard⟩ := wasServed.untold (isBefore ▸ working_safe) cancels
  have heard := (inStep.told event (by rw [isRun]; exact List.mem_singleton_self _) task .cancelled
    closes).closed
  rw [unheard] at heard
  cases heard

end Working

end EclipseOS.Policyd
