import EclipseOS.Agentd.Answered
import EclipseOS.Agentd.Exits

/-! # One inference call at a time

The router has at most one call of a task to answer, as long as no connection closes
with a call of its own on the way: the slot of such a call is given up while the router
still works on it. -/

namespace EclipseOS.Agentd

open Foundation PolicyEval

/-- The calls among what was said, with their tasks. -/
def completes (said : List Out) : List (Nat × String) :=
  said.filterMap fun out => match out with
    | .router (.complete request) => some (request.id, request.task)
    | _ => none

/-- The core, and the calls the router neither answered nor failed. -/
structure Flight where
  core : Core
  calls : List (Nat × String)

/-- The calls left to answer by what reaches the core. -/
def settle (calls : List (Nat × String)) : Msg → List (Nat × String)
  | .inference id _ => calls.filter (·.1 ≠ id)
  | _ => calls

namespace Core

variable {core before middle after : Core} {host : Host} {settings : Config}
  {calls : List (Nat × String)}

/-- No connection closes with a call of its own on the way, and a task is provisioned under
an id that has none. -/
def KeepsCalls (core : Core) (calls : List (Nat × String)) : Msg → Prop
  | .closed conn => ∀ entry ∈ core.inferPending.entries, entry.2.conn ≠ conn
  | .link (.provision task ..) => ∀ call ∈ calls, call.2 ≠ task
  | _ => True

instance (core : Core) (calls : List (Nat × String)) : ∀ msg, Decidable (core.KeepsCalls calls msg)
  | .closed _ => inferInstanceAs (Decidable (∀ entry ∈ core.inferPending.entries, _))
  | .link message => match message with
    | .provision .. => inferInstanceAs (Decidable (∀ call ∈ calls, _))
    | .taskState .. | .done .. | .refused .. | .table .. | .deferAnswer .. | .minted ..
    | .mintRefused .. | .revoked .. | .auditRecords .. | .preview .. | .taskCreated ..
    | .installReview .. => inferInstanceAs (Decidable True)
  | .open .. | .line .. | .linkUp _ | .linkDown | .decisions _ | .procExit .. | .humanReply ..
  | .inference .. | .tick => inferInstanceAs (Decidable True)

def CallsNone (before after : Core) : Prop :=
  ∃ added, after.log = before.log ++ added ∧ completes added = []

namespace CallsNone

theorem of_eq (same : after.log = before.log) : CallsNone before after :=
  ⟨[], by rw [same, List.append_nil], rfl⟩

theorem trans (first : CallsNone before middle) (second : CallsNone middle after) :
    CallsNone before after := by
  rcases first with ⟨early, extended, none⟩
  rcases second with ⟨late, extended', none'⟩
  refine ⟨early ++ late, by rw [extended', extended, List.append_assoc], ?_⟩
  rw [completes, List.filterMap_append]
  rw [completes] at none none'
  rw [none, none', List.append_nil]

theorem of_murmurs (murmurs : Murmurs before after) : CallsNone before after := by
  rcases murmurs with ⟨added, extended, quiet⟩
  refine ⟨added, extended, ?_⟩
  rw [completes, List.filterMap_eq_nil_iff]
  intro out member
  have calm := quiet out member
  cases out with
  | router message =>
    cases message with
    | complete request => cases calm
    | close task => rfl
  | _ => rfl

theorem send {conn : Nat} {id : Json} {result : Except RpcError Json}
    (none : CallsNone before core) : CallsNone before (core.send conn id result) := by
  rw [Core.send]
  split
  · exact none.trans ⟨_, rfl, rfl⟩
  · exact none

theorem pendingReply (core : Core) (req : Nat) (result : Except RpcError Json) :
    CallsNone core (core.pendingReply req result) := by
  rw [Core.pendingReply]
  split
  · exact of_eq rfl
  · dsimp only
    split
    · exact send (of_eq rfl)
    · exact of_eq rfl

theorem drop_append (silent : CallsNone before after) (last : List Out) :
    completes ((after.log ++ last).drop before.log.length) = completes last := by
  rcases silent with ⟨added, extended, silent⟩
  rw [extended, List.append_assoc, List.drop_left, completes, List.filterMap_append]
  rw [completes] at silent
  rw [silent, List.nil_append, completes]

theorem drop (silent : CallsNone before after) :
    completes (after.log.drop before.log.length) = [] := by
  have dropped := silent.drop_append []
  rw [List.append_nil] at dropped
  exact dropped

end CallsNone

/-- What the tables say of the calls the router has. -/
structure InFlight (core : Core) (calls : List (Nat × String)) : Prop where
  single : (calls.map Prod.snd).Nodup
  byTask : ∀ call ∈ calls, core.isOpen call.2 → core.inferByTask.lookup call.2 = some call.1
  waiting : ∀ id call, core.inferPending.lookup id = some call → (id, call.task) ∈ calls

namespace InFlight

theorem of_opens (opens : ∀ id, after.isOpen id → before.isOpen id)
    (inferPending : after.inferPending = before.inferPending)
    (inferByTask : after.inferByTask = before.inferByTask) (inFlight : InFlight before calls) :
    InFlight after calls where
  single := inFlight.single
  byTask call member isOpen := by
    rw [inferByTask]
    exact inFlight.byTask call member (opens _ isOpen)
  waiting id call waits := inFlight.waiting id call (inferPending ▸ waits)

theorem closes {id : String} (closes : Closes id before after) (shut : before.isOpen id = false)
    (inFlight : InFlight before calls) : InFlight after calls where
  single := inFlight.single
  byTask call member isOpen := by
    rw [closes.opens] at isOpen
    have apart : call.2 ≠ id := by
      rintro rfl
      rw [shut] at isOpen
      cases isOpen
    rw [closes.inferByTask, AList.lookup_erase_ne apart]
    exact inFlight.byTask call member isOpen
  waiting other call waits := by
    rw [closes.inferPending, Table.lookup_retain] at waits
    exact inFlight.waiting other call waits.1

theorem keeps (start : Core) (calls : List (Nat × String)) :
    Keeps (fun _ => True) fun later => InFlight later calls ∧ CallsNone start later where
  quiet quiet := fun ⟨inFlight, silent⟩ =>
    ⟨inFlight.of_opens quiet.opens quiet.inferPending quiet.inferByTask,
      silent.trans (.of_murmurs quiet.log)⟩
  reply req result := fun ⟨inFlight, silent⟩ => by
    refine ⟨?_, silent.trans (.pendingReply _ req result)⟩
    rw [Core.pendingReply]
    split
    · exact inFlight
    · dsimp only
      split
      · rw [Core.send]
        split
        · exact { inFlight with }
        · exact { inFlight with }
      · exact { inFlight with }
  close _ closed shut := fun ⟨inFlight, silent⟩ =>
    ⟨inFlight.closes closed shut, silent.trans (.of_murmurs closed.log)⟩

theorem closeConn {conn : Nat} (standing : Standing core)
    (spared : ∀ entry ∈ core.inferPending.entries, entry.2.conn ≠ conn)
    (inFlight : InFlight core calls) : InFlight (core.closeConn conn) calls where
  single := inFlight.single
  byTask call member isOpen := by
    have busy := inFlight.byTask call member isOpen
    rcases standing.byTask call.2 call.1 busy with ⟨held, waits, -⟩
    apply Table.lookup_retain.mpr
    refine ⟨busy, Option.isSome_iff_exists.mpr ⟨held, ?_⟩⟩
    apply Table.lookup_retain.mpr
    exact ⟨waits, by simpa using spared _ (Table.lookup_eq_some.mp waits)⟩
  waiting id call waits := inFlight.waiting id call (Table.lookup_retain.mp waits).1

theorem isOpen_launch (core : Core) (settings : Config) (host : Host) (task id : String) :
    (core.launch settings host task).2.isOpen id = core.isOpen id := by
  rw [launch]
  split
  · rfl
  split
  · rfl
  split <;> rfl

theorem opens_provision {prov : Prov} {id : String}
    (isOpen : (core.provision settings host prov).isOpen id) :
    id = prov.task ∨ core.isOpen id := by
  rw [Core.provision] at isOpen
  split at isOpen
  · exact .inr isOpen
  rename_i unknown
  split at isOpen
  · exact .inr ((quiet_exited core _ _).opens id isOpen)
  split at isOpen
  · exact .inr ((quiet_exited core _ _).opens id isOpen)
  have fresh : core.task prov.task = none := by simpa using unknown
  have found : ((core.event "task_started" (startedJson (core.provisioned host prov))).insertTask
      (core.provisioned host prov)).task id =
      if (core.provisioned host prov).id = id then some (core.provisioned host prov)
        else core.task id := task_insertTask fresh
  have launched := isOpen_launch ((core.event "task_started"
    (startedJson (core.provisioned host prov))).insertTask (core.provisioned host prov))
    settings host (core.provisioned host prov).id id
  dsimp only at isOpen
  have inserted : Core.isOpen ((core.event "task_started"
      (startedJson (core.provisioned host prov))).insertTask (core.provisioned host prov)) id := by
    split at isOpen
    · rename_i after outcome
      rw [outcome] at launched
      exact launched ▸ isOpen
    · rename_i after outcome
      rw [outcome] at launched
      exact launched ▸ (quiet_exited after _ _).opens id isOpen
  rw [Core.isOpen, found] at inserted
  split at inserted
  · rename_i same
    exact .inl same.symm
  · exact .inr inserted

theorem provision {prov : Prov} (spared : ∀ call ∈ calls, call.2 ≠ prov.task)
    (inFlight : InFlight core calls) : InFlight (core.provision settings host prov) calls where
  single := inFlight.single
  byTask call member isOpen := by
    rw [(still_provision core settings host prov).inferByTask]
    rcases opens_provision isOpen with same | before
    · exact absurd same (spared call member)
    · exact inFlight.byTask call member before
  waiting id call waits :=
    inFlight.waiting id call ((still_provision core settings host prov).inferPending ▸ waits)

variable [JsonText]

theorem inferComplete {conn : Nat} {task : Task} {decl : Inference} {mcpId : Json}
    {args : Router.Args} (isOpen : core.isOpen task.id)
    (free : core.inferByTask.lookup task.id = none) (reached : host.router = true)
    (inFlight : InFlight core calls) :
    InFlight (core.inferComplete host conn task decl mcpId args).2
      (calls ++ [(core.nextInfer, task.id)]) := by
  have alone : ∀ call ∈ calls, call.2 ≠ task.id := by
    intro call member same
    have busy := inFlight.byTask call member (same ▸ isOpen)
    rw [same, free] at busy
    cases busy
  rw [Core.inferComplete, reached]
  exact {
    single := by
      rw [List.map_append, List.nodup_append]
      refine ⟨inFlight.single, by simp, ?_⟩
      intro named member other last
      rcases List.mem_map.mp member with ⟨call, before, rfl⟩
      rw [List.map_singleton, List.mem_singleton] at last
      rw [last]
      exact alone call before
    byTask := by
      intro call member isOpen'
      apply Table.lookup_insert_eq_some.mpr
      rcases List.mem_append.mp member with before | last
      · exact .inr ⟨alone call before, inFlight.byTask call before isOpen'⟩
      · rw [List.mem_singleton] at last
        exact .inl ⟨last ▸ rfl, last ▸ rfl⟩
    waiting := by
      intro id call waits
      rcases Table.lookup_insert_eq_some.mp waits with ⟨rfl, rfl⟩ | ⟨-, before⟩
      · exact List.mem_append_right _ (List.mem_singleton_self _)
      · exact List.mem_append_left _ (inFlight.waiting id call before) }

theorem onInference {id : Nat} {result : Except Failure Completion} (standing : Standing core)
    (inFlight : InFlight core calls) :
    InFlight (core.onInference host id result) (calls.filter (·.1 ≠ id)) := by
  have single : ((calls.filter (·.1 ≠ id)).map Prod.snd).Nodup :=
    inFlight.single.sublist (List.filter_sublist.map Prod.snd)
  rw [Core.onInference]
  split
  · rename_i none
    exact {
      single := single
      byTask := fun call member isOpen =>
        inFlight.byTask call (List.mem_filter.mp member).1 isOpen
      waiting := by
        intro other call waits
        refine List.mem_filter.mpr ⟨inFlight.waiting other call waits, ?_⟩
        have apart : other ≠ id := by
          rintro rfl
          rw [none] at waits
          cases waits
        simpa using apart }
  · rename_i held found
    have settled : InFlight { core with
        inferPending := core.inferPending.erase id
        inferByTask := core.inferByTask.erase held.task } (calls.filter (·.1 ≠ id)) := {
      single := single
      byTask := by
        intro call member isOpen
        rcases List.mem_filter.mp member with ⟨before, apart⟩
        have busy := inFlight.byTask call before isOpen
        refine Table.lookup_erase_eq_some.mpr ⟨?_, busy⟩
        intro same
        rw [same, standing.inFlight id held found] at busy
        simp [Option.some.inj busy] at apart
      waiting := by
        intro other call waits
        rcases Table.lookup_erase_eq_some.mp waits with ⟨apart, before⟩
        exact List.mem_filter.mpr ⟨inFlight.waiting other call before, by simpa using apart⟩ }
    rw [Core.send]
    split
    · exact { settled with }
    · exact { settled with }

end InFlight

variable [JsonText]

/-- A call of the router's, made on a connection under an id. -/
def Makes (before after : Core) (conn : Nat) (request : Request) : Prop :=
  ∃ id task mcpId, request.id = some mcpId ∧
    completes (after.log.drop before.log.length) = [(id, task)] ∧
    after.inferPending = before.inferPending.insert id ⟨task, conn, mcpId⟩

theorem inFlight_served {surface : Surface} {conn : Nat} {request : Request} {outcome : Outcome}
    (inFlight : InFlight before calls)
    (served : Served host conn request before surface outcome after) :
    InFlight after (calls ++ completes (after.log.drop before.log.length)) ∧
      (CallsNone before after ∧ after.inferPending = before.inferPending ∨
        outcome = .deferred ∧ Makes before after conn request) := by
  cases served with
  | now quiet =>
    have silent := CallsNone.of_murmurs quiet.log
    rw [silent.drop, List.append_nil]
    exact ⟨inFlight.of_opens quiet.opens quiet.inferPending quiet.inferByTask,
      .inl ⟨silent, quiet.inferPending⟩⟩
  | @asked call middle quiet =>
    have silent := CallsNone.of_murmurs quiet.log
    have asked : CallsNone before (middle.emit (.ask conn request.id call)) :=
      silent.trans ⟨_, rfl, rfl⟩
    rw [asked.drop, List.append_nil]
    exact ⟨{ inFlight.of_opens quiet.opens quiet.inferPending quiet.inferByTask with },
      .inl ⟨asked, quiet.inferPending⟩⟩
  | held quiet fresh given =>
    have silent := CallsNone.of_murmurs quiet.log
    refine ⟨?_, .inl ⟨silent, quiet.inferPending⟩⟩
    simp only [silent.drop, List.append_nil]
    exact { inFlight.of_opens quiet.opens quiet.inferPending quiet.inferByTask with }
  | @sent task decl mcpId args middle quiet answerable isOpen free reached =>
    have silent := CallsNone.of_murmurs quiet.log
    have made : completes
        ((middle.inferComplete host conn task decl mcpId args).2.log.drop before.log.length) =
          [(middle.nextInfer, task.id)] := by
      rw [inferComplete, reached]
      exact silent.drop_append _
    have before := inFlight.of_opens quiet.opens quiet.inferPending quiet.inferByTask
    rw [made]
    refine ⟨before.inferComplete isOpen free reached, .inr ⟨rfl, middle.nextInfer, task.id, mcpId,
      answerable, made, ?_⟩⟩
    rw [inferComplete, reached, ← quiet.inferPending]
    rfl

variable [Blake3]

theorem inFlight_onLine {conn : Nat} {read : Option Json} (inFlight : InFlight core calls) :
    InFlight (core.onLine settings host conn read)
        (calls ++ completes ((core.onLine settings host conn read).log.drop core.log.length)) ∧
      (CallsNone core (core.onLine settings host conn read) ∧
          (core.onLine settings host conn read).inferPending = core.inferPending ∨
        ∃ request, parse read = .req request ∧
          Makes core (core.onLine settings host conn read) conn request) := by
  have sent {id : Json} {result : Except RpcError Json} {later : Core} {calls : List (Nat × String)}
      (inFlight : InFlight later calls) : InFlight (later.send conn id result) calls ∧
        (later.send conn id result).inferPending = later.inferPending := by
    rw [Core.send]
    split
    · exact ⟨{ inFlight with }, rfl⟩
    · exact ⟨inFlight, rfl⟩
  rw [onLine]
  split
  · have silent : CallsNone core core := .of_eq rfl
    rw [silent.drop, List.append_nil]
    exact ⟨inFlight, .inl ⟨silent, rfl⟩⟩
  · rename_i held found
    split
    · have silent {id : Json} {error : RpcError} : CallsNone core
          (core.send conn id (.error error)) := (CallsNone.of_eq rfl).send
      rw [silent.drop, List.append_nil]
      exact ⟨(sent inFlight).1, .inl ⟨silent, (sent inFlight).2⟩⟩
    · rename_i request parsed
      rcases onRequest_eq core settings host conn held.surface request with
        ⟨outcome, after, served, rewritten⟩
      rcases inFlight_served inFlight served with ⟨flying, ⟨silent, kept⟩ | ⟨deferred, makes⟩⟩
      · rw [rewritten]
        rw [silent.drop, List.append_nil] at flying
        split
        · rw [silent.send.drop, List.append_nil]
          exact ⟨(sent flying).1, .inl ⟨silent.send, (sent flying).2.trans kept⟩⟩
        · rw [silent.drop, List.append_nil]
          exact ⟨flying, .inl ⟨silent, kept⟩⟩
      · subst deferred
        have unanswered : core.onRequest settings host conn held.surface request = after := by
          rw [rewritten]
          cases request.id <;> rfl
        rw [unanswered]
        exact ⟨flying, .inr ⟨request, parsed, makes⟩⟩

theorem inFlight_handle {msg : Msg} (standing : Standing core)
    (spared : core.KeepsCalls calls msg) (inFlight : InFlight core calls) :
    InFlight (handle settings core host msg)
      (settle calls msg ++
        completes ((handle settings core host msg).log.drop core.log.length)) := by
  by_cases routine : isRoutine msg
  · have kept : InFlight (handle settings core host msg) calls ∧
        CallsNone core (handle settings core host msg) :=
      (InFlight.keeps core calls).handle routine (fun _ _ => trivial) ⟨inFlight, .of_eq rfl⟩
    rw [kept.2.drop, List.append_nil]
    have same : settle calls msg = calls := by
      cases msg <;> first | rfl | cases routine
    rw [same]
    exact kept.1
  cases msg with
  | «open» conn surface =>
    rw [handle]
    rcases openConn_cases core conn surface with refused | opened
    · have silent : CallsNone core (core.emit (.hangUp conn)) := ⟨_, rfl, rfl⟩
      rw [refused, silent.drop, List.append_nil]
      exact { inFlight with }
    · rw [opened, (CallsNone.of_eq rfl).drop, List.append_nil]
      exact { inFlight with }
  | line conn read => exact (inFlight_onLine inFlight).1
  | closed conn =>
    have silent : CallsNone core (core.closeConn conn) := .of_eq rfl
    rw [handle, silent.drop, List.append_nil]
    exact inFlight.closeConn standing spared
  | procExit task status =>
    have ended : InFlight { core with procs := core.procs.filter (· ≠ task) } calls :=
      { inFlight with }
    rw [handle]
    split
    · have quiet := quiet_exited { core with procs := core.procs.filter (· ≠ task) } task status
      have silent : CallsNone core (Core.exited { core with procs := _ } task status) :=
        .of_murmurs quiet.log
      rw [silent.drop, List.append_nil]
      exact ended.of_opens quiet.opens quiet.inferPending quiet.inferByTask
    · rw [(CallsNone.of_eq rfl).drop, List.append_nil]
      exact ended
  | humanReply conn id result =>
    cases id with
    | none =>
      rw [handle, (CallsNone.of_eq rfl).drop, List.append_nil]
      exact inFlight
    | some id =>
      have silent : CallsNone core (core.send conn id result) := (CallsNone.of_eq rfl).send
      rw [handle, silent.drop, List.append_nil, Core.send]
      split
      · exact { inFlight with }
      · exact inFlight
  | inference id result =>
    have silent : CallsNone core (core.onInference host id result) := by
      rw [onInference]
      split
      · exact .of_eq rfl
      · exact CallsNone.send ⟨_, rfl, rfl⟩
    rw [handle, silent.drop, List.append_nil]
    exact inFlight.onInference standing
  | link message =>
    cases message with
    | provision task principal package version statement deadlineMs grant continuation resumes
        account =>
        have still := still_provision core settings host
          ⟨task, principal, package, version, statement, deadlineMs, continuation, resumes,
            account⟩
        rw [handle, onLink, (CallsNone.of_murmurs still.log).drop, List.append_nil]
        exact inFlight.provision spared
    | _ => exact absurd rfl routine
  | _ => exact absurd rfl routine

/-! ## What waits for the router -/

theorem makes_handle {msg : Msg} {id : Nat} {call : InferCall} (inFlight : InFlight core calls)
    (waits : (handle settings core host msg).inferPending.lookup id = some call) :
    core.inferPending.lookup id = some call ∨
      ∃ read request, msg = .line call.conn read ∧ parse read = .req request ∧
        request.id = some call.mcpId ∧
        completes ((handle settings core host msg).log.drop core.log.length) = [(id, call.task)] := by
  have keeps : Keeps (fun _ => True) fun later =>
      later.inferPending.lookup id = some call → core.inferPending.lookup id = some call := {
    quiet := fun quiet kept waits => kept (quiet.inferPending ▸ waits)
    reply := by
      intro later req result kept waits
      apply kept
      rw [pendingReply] at waits
      split at waits
      · exact waits
      · dsimp only at waits
        split at waits
        · rw [Core.send] at waits
          split at waits <;> exact waits
        · exact waits
    close := fun _ closes _ kept waits =>
      kept (Table.lookup_retain.mp (closes.inferPending ▸ waits)).1 }
  by_cases routine : isRoutine msg
  · exact .inl (keeps.handle routine (fun _ _ => trivial) (fun waits => waits) waits)
  cases msg with
  | «open» other surface =>
    rw [handle] at waits
    rcases openConn_cases core other surface with refused | opened
    · rw [refused] at waits
      exact .inl waits
    · rw [opened] at waits
      exact .inl waits
  | line other read =>
    have went : CallsNone core (core.onLine settings host other read) ∧
          (core.onLine settings host other read).inferPending = core.inferPending ∨
        ∃ request, parse read = .req request ∧
          Makes core (core.onLine settings host other read) other request :=
      (inFlight_onLine inFlight).2
    rcases went with
      ⟨-, kept⟩ | ⟨request, parsed, made, task, mcpId, answerable, calls, inserted⟩
    · rw [handle, kept] at waits
      exact .inl waits
    · rw [handle, inserted] at waits
      rcases Table.lookup_insert_eq_some.mp waits with ⟨rfl, rfl⟩ | ⟨-, before⟩
      · exact .inr ⟨read, request, rfl, parsed, answerable, calls⟩
      · exact .inl before
  | closed gone => exact .inl (Table.lookup_retain.mp waits).1
  | procExit task status =>
    rw [handle] at waits
    split at waits
    · rw [(quiet_exited _ _ _).inferPending] at waits
      exact .inl waits
    · exact .inl waits
  | humanReply other named result =>
    cases named with
    | none => exact .inl waits
    | some named =>
      rw [handle, Core.send] at waits
      split at waits <;> exact .inl waits
  | inference answered result =>
    rw [handle, onInference] at waits
    split at waits
    · exact .inl waits
    · rw [Core.send] at waits
      split at waits <;> exact .inl (Table.lookup_erase_eq_some.mp waits).2
  | link message =>
    cases message with
    | provision => exact .inl ((still_provision core settings host _).inferPending ▸ waits)
    | _ => exact absurd rfl routine
  | _ => exact absurd rfl routine

theorem forwarded_handle {msg : Msg} {conn : Nat} {id : Json} {task : String}
    (on : core.surface conn = some (.mcp task)) :
    (handle settings core host msg).forwarded conn id = core.forwarded conn id := by
  have murmurs {before after : Core} (murmurs : Murmurs before after) :
      after.forwarded conn id = before.forwarded conn id :=
    counts_of_murmurs (fun _ => asksFor_loud) murmurs
  have sent {later : Core} {other : Nat} {named : Json} {result : Except RpcError Json} :
      (later.send other named result).forwarded conn id = later.forwarded conn id := by
    rw [Core.send]
    split
    · simp [forwarded, emit, Out.asksFor]
    · rfl
  have keeps : Keeps (fun _ => True) fun later =>
      later.forwarded conn id = core.forwarded conn id := {
    quiet := fun quiet kept => (murmurs quiet.log).trans kept
    reply := by
      intro later req result kept
      rw [pendingReply]
      split
      · exact kept
      · dsimp only
        split
        · exact sent.trans kept
        · exact kept
    close := fun _ closes _ kept => (murmurs closes.log).trans kept }
  by_cases routine : isRoutine msg
  · exact keeps.handle routine (fun _ _ => trivial) rfl
  cases msg with
  | «open» other surface =>
    rw [handle]
    rcases openConn_cases core other surface with refused | opened
    · rw [refused]
      exact murmurs ⟨_, rfl, by simp [Out.isQuiet]⟩
    · rw [opened]
      rfl
  | line other read =>
    rw [handle, onLine]
    split
    · rfl
    · rename_i held found
      split
      · exact sent
      · rename_i request parsed
        rcases onRequest_eq core settings host other held.surface request with
          ⟨outcome, after, served, rewritten⟩
        have kept : after.forwarded conn id = core.forwarded conn id := by
          generalize kind : held.surface = surface at served
          cases served with
          | now quiet => exact murmurs quiet.log
          | @asked call middle quiet =>
            have apart : other ≠ conn := by
              rintro rfl
              rw [surface, found, Option.map_some, kind] at on
              cases on
            have asked : (middle.emit (.ask other request.id call)).forwarded conn id =
                middle.forwarded conn id := by
              simp [forwarded, emit, Out.asksFor, apart]
            exact asked.trans (murmurs quiet.log)
          | held quiet fresh given => exact murmurs quiet.log
          | sent quiet answerable isOpen free reached =>
            rw [inferComplete, reached]
            refine Eq.trans ?_ (murmurs quiet.log)
            simp [forwarded, emit, Out.asksFor]
        rw [rewritten]
        split
        · exact sent.trans kept
        · exact kept
  | closed gone => rfl
  | procExit task status =>
    rw [handle]
    split
    · exact murmurs (quiet_exited _ _ _).log
    · rfl
  | humanReply other named result =>
    cases named with
    | none => rfl
    | some named => exact sent
  | inference req result =>
    rw [handle, onInference]
    split
    · rfl
    · refine sent.trans ?_
      exact murmurs ⟨_, rfl, by simp [Out.isQuiet]⟩
  | link message =>
    cases message with
    | provision => exact murmurs (still_provision core settings host _).log
    | _ => exact absurd rfl routine
  | _ => exact absurd rfl routine

omit [Blake3] in
theorem log_onInference {id : Nat} {result : Except Failure Completion} {call : InferCall}
    (standing : Standing core) (waits : core.inferPending.lookup id = some call) :
    (core.onInference host id result).log = core.log ++
      [.record call.task "mcp_response" host.now
        (.object [("method", .str "tools/call"), ("result", Router.toolResult result)]),
      .reply call.conn call.mcpId (.ok (Router.toolResult result))] := by
  have on := standing.mcps id call waits
  rw [surface_eq_some] at on
  rcases on with ⟨held, found, -⟩
  rw [onInference, waits]
  simp only [Core.send, record, emit, found]
  simp

end Core

/-! ## Every run -/

section Runs

variable [Blake3] [JsonText] {settings : Config} {host : Host} {loaded : List Task}
  {past : List Moment} {moment : Moment} {conn : Nat} {id : Json} {task : String}

def Flight.step (settings : Config) (flight : Flight) (moment : Moment) : Flight where
  core := flight.core.step settings moment
  calls := settle flight.calls moment.2 ++
    completes ((flight.core.step settings moment).log.drop flight.core.log.length)

def flight (settings : Config) (host : Host) (loaded : List Task) (past : List Moment) : Flight :=
  past.foldl (Flight.step settings) ⟨Core.new settings host loaded, []⟩

/-- The calls the router neither answered nor failed. -/
def unanswered (settings : Config) (host : Host) (loaded : List Task) (past : List Moment) :
    List (Nat × String) :=
  (flight settings host loaded past).calls

theorem core_flight : (flight settings host loaded past).core = after settings host loaded past := by
  induction past using List.reverseRecOn with
  | nil => rfl
  | append_singleton past moment induction =>
    rw [flight, List.foldl_append, after_snoc, ← induction]
    rfl

theorem unanswered_snoc : unanswered settings host loaded (past ++ [moment]) =
    settle (unanswered settings host loaded past) moment.2 ++
      completes ((after settings host loaded (past ++ [moment])).log.drop
        (after settings host loaded past).log.length) := by
  rw [after_snoc, ← core_flight, unanswered, flight, List.foldl_append]
  rfl

/-- One call at a time, and the router's answer to each. -/
structure OneCall (settings : Config) (host : Host) (loaded : List Task) (past : List Moment) :
    Prop where
  /-- The router has at most one call of a task to answer. -/
  single : ((unanswered settings host loaded past).map Prod.snd).Nodup
  /-- A request on an agent's connection that is open was answered once, or the router has
  to answer it. -/
  balance : ∀ conn task id, (after settings host loaded past).surface conn = some (.mcp task) →
    asked past conn id = (after settings host loaded past).replied conn id +
      (after settings host loaded past).completing conn id
  /-- What waits is a call the router has, made for the request it will answer. -/
  waiting : ∀ id call, (after settings host loaded past).inferPending.lookup id = some call →
    (id, call.task) ∈ unanswered settings host loaded past ∧
      ∃ before now read request later, past = before ++ (now, .line call.conn read) :: later ∧
        parse read = .req request ∧ request.id = some call.mcpId ∧
        completes ((after settings host loaded (before ++ [(now, .line call.conn read)])).log.drop
          (after settings host loaded before).log.length) = [(id, call.task)]
  /-- The router's answer, or its failure, is the answer to the call it is about. -/
  answered : ∀ now id result call,
    (after settings host loaded past).inferPending.lookup id = some call →
    (after settings host loaded (past ++ [(now, .inference id result)])).log =
      (after settings host loaded past).log ++
        [.record call.task "mcp_response" now.now
          (.object [("method", .str "tools/call"), ("result", Router.toolResult result)]),
        .reply call.conn call.mcpId (.ok (Router.toolResult result))]

/-- No connection closes with a call of its own on the way. -/
def KeepsCalls (settings : Config) (host : Host) (loaded : List Task) (past : List Moment) :
    Prop :=
  Throughout (fun past moment => (after settings host loaded past).KeepsCalls
    (unanswered settings host loaded past) moment.2) past

instance : Decidable (KeepsCalls settings host loaded past) :=
  inferInstanceAs (Decidable (Throughout _ _))

theorem inFlight_run (orderly : Orderly settings host loaded past)
    (spared : KeepsCalls settings host loaded past) :
    (after settings host loaded past).InFlight (unanswered settings host loaded past) := by
  induction past using List.reverseRecOn with
  | nil =>
    rcases Core.new_eq settings host loaded with ⟨tasks, start⟩
    have begun : after settings host loaded [] = Core.new settings host loaded := rfl
    rw [begun, start]
    exact ⟨by simp [unanswered, flight], by simp [unanswered, flight], by simp⟩
  | append_singleton past moment induction =>
    rcases throughout_snoc.mp orderly with ⟨before, likely⟩
    rcases throughout_snoc.mp spared with ⟨sparedBefore, now⟩
    rw [unanswered_snoc, after_snoc]
    exact Core.inFlight_handle (traced_of_orderly before).standing now
      (induction before sparedBefore)

theorem forwarded_mcp (orderly : Orderly settings host loaded past)
    (found : (after settings host loaded past).surface conn = some (.mcp task)) :
    (after settings host loaded past).forwarded conn id = 0 := by
  induction past using List.reverseRecOn with
  | nil => exact absurd (traced_nil.known conn _ found) (by simp [opened])
  | append_singleton past moment induction =>
    rcases throughout_snoc.mp orderly with ⟨before, likely⟩
    rcases moment with ⟨now, msg⟩
    rw [after_snoc] at found ⊢
    by_cases opens : ∃ surface, msg = .open conn surface
    · rcases opens with ⟨surface, rfl⟩
      have owes := ((traced_of_orderly before).new conn id likely).1
      rw [Core.owed] at owes
      have said : (Core.openConn (after settings host loaded past) conn surface).forwarded conn id =
          (after settings host loaded past).forwarded conn id := by
        rcases Core.openConn_cases (after settings host loaded past) conn surface with
          refused | opened
        · rw [refused]
          simp [Core.forwarded, Core.emit, Out.asksFor]
        · rw [opened]
          rfl
      refine said.trans ?_
      omega
    · have earlier : (after settings host loaded past).surface conn = some (.mcp task) := by
        cases msg with
        | «open» other surface =>
          rcases surface_openConn found with rfl | earlier
          · exact absurd ⟨surface, rfl⟩ opens
          · exact earlier
        | _ => exact Core.surface_handle (by simp) conn _ found
      exact (Core.forwarded_handle earlier).trans (induction before earlier)

theorem waiting_mcp (traced : Traced settings host loaded past)
    (found : (after settings host loaded past).surface conn = some (.mcp task)) :
    (after settings host loaded past).waiting conn id = 0 := by
  rw [Core.waiting, Table.count_eq_zero]
  intro req held waits
  have on := traced.standing.consoles req held waits
  by_cases ours : held.conn = conn
  · rw [ours, found] at on
    cases on
  · simp [ours]

theorem owed_mcp (orderly : Orderly settings host loaded past)
    (found : (after settings host loaded past).surface conn = some (.mcp task)) :
    (after settings host loaded past).owed conn id =
      asked past conn id + told past conn id := by
  induction past using List.reverseRecOn with
  | nil => exact absurd (traced_nil.known conn _ found) (by simp [opened])
  | append_singleton past moment induction =>
    rcases throughout_snoc.mp orderly with ⟨before, likely⟩
    have traced := traced_of_orderly before
    refine owed_snoc likely traced found ?_ (induction before)
    rintro earlier closing - req held waits - rfl
    have on := traced.standing.consoles req held waits
    rw [earlier] at on
    cases on

theorem made_of_waiting (orderly : Orderly settings host loaded past)
    (spared : KeepsCalls settings host loaded past) {id : Nat} {call : InferCall}
    (waits : (after settings host loaded past).inferPending.lookup id = some call) :
    ∃ before now read request later, past = before ++ (now, .line call.conn read) :: later ∧
      parse read = .req request ∧ request.id = some call.mcpId ∧
      completes ((after settings host loaded (before ++ [(now, .line call.conn read)])).log.drop
        (after settings host loaded before).log.length) = [(id, call.task)] := by
  induction past using List.reverseRecOn with
  | nil =>
    rcases Core.new_eq settings host loaded with ⟨tasks, start⟩
    have begun : after settings host loaded [] = Core.new settings host loaded := rfl
    rw [begun, start] at waits
    simp at waits
  | append_singleton past moment induction =>
    rcases throughout_snoc.mp orderly with ⟨before, -⟩
    rcases throughout_snoc.mp spared with ⟨sparedBefore, -⟩
    rcases moment with ⟨now, msg⟩
    rw [after_snoc] at waits
    rcases Core.makes_handle (inFlight_run before sparedBefore) waits with
      earlier | ⟨read, request, rfl, parsed, answerable, calls⟩
    · rcases induction before sparedBefore earlier with
        ⟨first, then', read, request, later, split, made⟩
      exact ⟨first, then', read, request, later ++ [(now, msg)], by simp [split], made⟩
    · refine ⟨past, now, read, request, [], rfl, parsed, answerable, ?_⟩
      rw [after_snoc]
      exact calls

/-- Unless a connection closes with a call of its own on the way, a task has one call at a
time, and each is answered with what the router says to it. -/
theorem one_call (orderly : Orderly settings host loaded past)
    (spared : KeepsCalls settings host loaded past) : OneCall settings host loaded past where
  single := (inFlight_run orderly spared).single
  balance conn task id found := by
    have owed : (after settings host loaded past).owed conn id =
        asked past conn id + told past conn id := owed_mcp orderly found
    have none : (after settings host loaded past).forwarded conn id = 0 :=
      forwarded_mcp orderly found
    have idle : (after settings host loaded past).waiting conn id = 0 :=
      waiting_mcp (traced_of_orderly orderly) found
    have bounded : told past conn id ≤ (after settings host loaded past).forwarded conn id :=
      told_le_forwarded orderly
    rw [Core.owed, none, idle] at owed
    omega
  waiting id call waits :=
    ⟨(inFlight_run orderly spared).waiting id call waits, made_of_waiting orderly spared waits⟩
  answered now id result call waits := by
    rw [after_snoc]
    exact Core.log_onInference (traced_of_orderly orderly).standing waits

end Runs

/-! ## A connection that drops and returns -/

def completeLine (conn id : Nat) : Msg :=
  .line conn (some (.obj
    (.cons "id" (.ofNat id) (.cons "jsonrpc" (.str "2.0") (.cons "method" (.str "tools/call")
      (.cons "params" (.obj
        (.cons "arguments" (.obj (.cons "messages" (.array [.object []]) .nil))
          (.cons "name" (.str inferenceTool) .nil))) .nil))))))

def calling (rest : List Msg) : List Moment :=
  ([.linkUp ⟨none⟩, provisionOf someTask, .open 1 (.mcp someTask), completeLine 1 7] ++ rest).map
    (ready 0, ·)

/-- The connection closes with its call on the way, and the next makes another. -/
theorem second_call : ¬@OneCall startDigest unwritten settled (ready 0) []
    (calling [.closed 1, .open 2 (.mcp someTask), completeLine 2 8]) := by
  intro oneCall
  have single := @OneCall.single startDigest unwritten _ _ _ _ oneCall
  revert single
  decide

theorem one_call_answered : @OneCall startDigest unwritten settled (ready 0) []
    (calling [.inference 1 (.error ⟨"timeout", "too slow"⟩), completeLine 1 8]) :=
  @one_call startDigest unwritten settled (ready 0) []
    (calling [.inference 1 (.error ⟨"timeout", "too slow"⟩), completeLine 1 8]) (by decide)
    (by decide)

end EclipseOS.Agentd
