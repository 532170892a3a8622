import EclipseOS.Agentd.Quiet

/-! # What a call does

A call is answered at once and leaves alone what others wait for, or one entry says who
waits for its answer: for `policyd`, for the compositor or for the router. -/

namespace EclipseOS.Agentd

open Foundation PolicyEval

namespace Core

variable {core before middle after : Core} {host : Host}

section Posts

variable [Blake3]

theorem quiet_channelAudit (core : Core) (task principal : String) (message : Option Message)
    (size : Nat) (op : String) : Quiet core (core.channelAudit task principal message size op) :=
  quiet_sendAuditBytes core _

theorem quiet_auditRead (task principal : String) (messages : List Message) (core : Core) :
    Quiet core (auditRead task principal messages core) :=
  Quiet.foldl (fun core message => quiet_channelAudit core task principal (some message) _ "read")
    messages core

theorem quiet_conversationRead (core : Core) (params : Json) :
    Quiet core (core.conversationRead params).2 := by
  rw [conversationRead]
  split
  · exact Quiet.refl core
  · exact quiet_auditRead _ _ _ core

namespace Quiet

variable {task principal kind op name : String} {body data : Json} {awaiting : Bool}
  {message : Option Message} {size : Nat}

theorem channelAudit (quiet : Quiet before core) :
    Quiet before (core.channelAudit task principal message size op) :=
  quiet.trans (quiet_channelAudit core task principal message size op)

omit [Blake3]

theorem event (quiet : Quiet before core) : Quiet before (core.event name data) :=
  quiet.trans (quiet_event core name data)

theorem record (quiet : Quiet before core) : Quiet before (core.record host task kind body) :=
  quiet.trans (quiet_record core host task kind body)

theorem awaitingEvent (quiet : Quiet before core) :
    Quiet before (core.awaitingEvent task awaiting) :=
  quiet.event

end Quiet

omit [Blake3] in
theorem postable_task {params : Json} {task : Task} {text : String} {replyTo : Option UInt64}
    (checked : core.postable params = .ok (task, text, replyTo)) :
    core.task task.id = some task := by
  simp only [postable, bind, Except.bind, pure, Except.pure, throw, throwThe,
    MonadExceptOf.throw] at checked
  repeat' split at checked
  all_goals try cases checked
  have here := task_of_taskRef ‹core.taskRef _ = .ok _›
  rw [id_of_task here, here]

theorem quiet_conversationPost (core : Core) (host : Host) (params : Json) :
    Quiet core (core.conversationPost host params).2 := by
  rw [conversationPost]
  split
  · exact Quiet.refl core
  · rename_i task text replyTo checked
    have found := postable_task checked
    split
    · exact Quiet.refl core
    · dsimp only
      split
      · apply Quiet.awaitingEvent
        apply Quiet.event
        apply Quiet.channelAudit
        apply Quiet.record
        exact quiet_setTask found fun closed => closed
      · apply Quiet.event
        apply Quiet.channelAudit
        apply Quiet.record
        exact quiet_setTask found fun closed => closed

omit [Blake3] in
theorem quiet_deleteSession (core : Core) (params : Json) :
    Quiet core (core.deleteSession params).2 := by
  rw [deleteSession]
  split
  · exact Quiet.refl core
  · split
    · exact quiet_removeTask core _
    · exact Quiet.refl core

omit [Blake3] in
theorem sayable_task {id raw text : String} {task : Task}
    (checked : core.sayable id raw = .ok (task, text)) : core.task id = some task := by
  rw [sayable] at checked
  cases found : core.task id with
  | none => simp [found, Option.elim, bind, Except.bind, throw, throwThe,
      MonadExceptOf.throw] at checked
  | some held =>
    simp only [found, Option.elim, bind, Except.bind, pure, Except.pure, throw, throwThe,
      MonadExceptOf.throw] at checked
    repeat' split at checked
    all_goals try cases checked
    rfl

theorem quiet_agentPost (core : Core) (host : Host) (id : String) (kind : MessageKind)
    (raw : String) : Quiet core (core.agentPost host id kind raw).2 := by
  rw [agentPost]
  split
  · exact Quiet.refl core
  · rename_i task text checked
    have found := sayable_task checked
    have named := id_of_task found
    subst named
    dsimp only
    split
    · apply Quiet.channelAudit
      exact quiet_setTask found fun closed => closed
    · split
      · exact quiet_setTask found fun closed => closed
      · split
        · apply Quiet.awaitingEvent
          apply Quiet.event
          apply Quiet.channelAudit
          apply Quiet.record
          exact quiet_setTask found fun closed => closed
        · apply Quiet.event
          apply Quiet.channelAudit
          apply Quiet.record
          exact quiet_setTask found fun closed => closed

theorem quiet_inbox (core : Core) (id : String) (since : Nat) :
    Quiet core (core.inbox id since).2 := by
  rw [inbox]
  split
  · exact Quiet.refl core
  · exact quiet_auditRead _ _ _ core

omit [Blake3] in
theorem quiet_restore (core : Core) (host : Host) (id : String) :
    Quiet core (core.restore host id).2 := by
  rw [restore]
  split
  · exact Quiet.refl core
  · rename_i task found
    split
    · exact Quiet.refl core
    · split
      · exact Quiet.refl core
      · have named := id_of_task found
        subst named
        exact quiet_setTask found fun closed => closed

variable [JsonText]

omit [Blake3] in
theorem quiet_withArgument {α : Type} {argument : Except RpcError α}
    {run : α → Except String Json × Core} (each : ∀ argument, Quiet core (run argument).2) :
    Quiet core (core.withArgument argument run).2 := by
  unfold withArgument
  split
  · exact Quiet.refl core
  · exact each _

theorem quiet_mcpTool (core : Core) (host : Host) (task : String) (params : Json) :
    Quiet core (core.mcpTool host task params).2 := by
  rw [mcpTool]
  split
  · exact Quiet.refl core
  · exact quiet_withArgument (quiet_agentPost core host task .say)
  · exact quiet_withArgument (quiet_agentPost core host task .ask)
  · exact quiet_withArgument fun since => quiet_inbox core task _
  · split
    · exact quiet_withArgument fun _ => quiet_restore core host task
    · exact Quiet.refl core

theorem quiet_mcpCall (core : Core) (host : Host) (task : String) (request : Request) :
    Quiet core (core.mcpCall host task request).2 := by
  rw [mcpCall]
  split
  · exact Quiet.refl core
  split
  · exact Quiet.refl core
  split
  · exact Quiet.refl core
  split
  · exact Quiet.refl core
  split
  · exact quiet_mcpTool core host task _
  · exact Quiet.refl core

omit [Blake3] [JsonText] in
theorem quiet_recordResponse (core : Core) (host : Host) (task : String) (request : Request)
    (result : Except RpcError Json) :
    Quiet core (core.recordResponse host task request result) := by
  unfold recordResponse
  split
  · exact Quiet.refl core
  · exact quiet_record core host task _ _

/-! ## Calls -/

omit [Blake3] in
/-- What a call on a connection does, with what it answers. -/
inductive Served (host : Host) (conn : Nat) (request : Request) (before : Core) :
    Surface → Outcome → Core → Prop where
  | now {surface : Surface} {result : Except RpcError Json} {after : Core}
      (quiet : Quiet before after) : Served host conn request before surface (.now result) after
  /-- A helper thread asks the compositor. -/
  | asked {call : HumanCall} {middle : Core} (quiet : Quiet before middle) :
      Served host conn request before .console .deferred (middle.emit (.ask conn request.id call))
  /-- `policyd` is asked, and the request is held until it answers. -/
  | held {req : Nat} {task : String} {action : Action} {middle : Core}
      (quiet : Quiet before middle) (fresh : before.nextReq ≤ req) (given : req < middle.nextReq) :
      Served host conn request before .console .deferred { middle with
        pending := middle.pending.insert req
          ⟨conn, request.id, host.now + pendingMs, task, action⟩ }
  /-- The router has the call of an open task that has no other. -/
  | sent {task : Task} {decl : Inference} {mcpId : Json} {args : Router.Args} {middle : Core}
      (quiet : Quiet before middle) (answerable : request.id = some mcpId)
      (isOpen : middle.isOpen task.id) (free : middle.inferByTask.lookup task.id = none)
      (reached : host.router = true) :
      Served host conn request before (.mcp task.id) .deferred
        (middle.inferComplete host conn task decl mcpId args).2

variable {settings : Config} {conn : Nat} {surface : Surface} {request : Request}

omit [Blake3] in
theorem Served.preceded {outcome : Outcome}
    (served : Served host conn request middle surface outcome after)
    (quiet : Quiet before middle) : Served host conn request before surface outcome after := by
  cases served with
  | now calm => exact .now (quiet.trans calm)
  | asked calm => exact .asked (quiet.trans calm)
  | held calm fresh given => exact .held (quiet.trans calm) (quiet.nextReq.trans fresh) given
  | sent calm answerable isOpen free reached =>
    exact .sent (quiet.trans calm) answerable isOpen free reached

omit [Blake3] in
theorem served_pauseCancel : Served host conn request core .console
    (core.pauseCancel host conn request).1 (core.pauseCancel host conn request).2 := by
  rw [pauseCancel]
  split
  · exact .now (Quiet.refl core)
  · rename_i id action checked
    have sent := quiet_sendPolicyd core.reqId.2 (actionMessage core.reqId.1 id action)
    have quiet := (quiet_reqId core).trans sent
    dsimp only
    split
    · rename_i middle outcome
      rw [outcome] at quiet
      exact .now quiet
    · rename_i middle outcome
      rw [outcome] at quiet sent
      exact .held quiet (le_refl _) sent.nextReq

omit [Blake3] in
theorem served_askHuman {call : HumanCall} {last : Option Nat} {limited : String} {started : Core}
    (quiet : Quiet core started) : Served host conn request core .console
    (core.askHuman settings host conn request call last limited started).1
    (core.askHuman settings host conn request call last limited started).2 := by
  rw [askHuman]
  split
  · exact .now (Quiet.refl core)
  · split
    · exact .now (Quiet.refl core)
    · exact .asked quiet

theorem served_consoleCall : Served host conn request core .console
    (core.consoleCall settings host conn request).1
    (core.consoleCall settings host conn request).2 := by
  rw [consoleCall]
  split
  case h_4 => exact .now (quiet_conversationRead core _)
  case h_5 => exact .now (quiet_conversationPost core host _)
  case h_6 => exact served_pauseCancel
  case h_7 => exact served_pauseCancel
  case h_8 => exact served_askHuman { Quiet.refl core with }
  case h_9 => exact served_askHuman { Quiet.refl core with }
  case h_11 => exact .now (quiet_deleteSession core _)
  case h_12 => exact .now (quiet_setSubscribed core conn true)
  case h_13 => exact .now (quiet_setSubscribed core conn false)
  all_goals exact .now (Quiet.refl core)

omit [Blake3] in
theorem served_inferenceCall {id : String} {outcome : Outcome}
    (called : core.inferenceCall host conn id request = some (outcome, after)) :
    Served host conn request core (.mcp id) outcome after := by
  rw [inferenceCall] at called
  split at called
  · cases called
  split at called
  · cases called
  rename_i task found
  split at called
  · cases called
  rename_i decl declared
  split at called
  · cases called
    exact .now (Quiet.refl core)
  rename_i mcpId answerable
  split at called
  · cases called
    exact .now (Quiet.refl core)
  rename_i notClosed
  split at called
  · cases called
    exact .now (Quiet.refl core)
  rename_i args parsed
  split at called
  · cases called
    exact .now (Quiet.refl core)
  rename_i free
  have named := id_of_task found
  subst named
  have isOpen : core.isOpen task.id := by
    rw [Core.isOpen, found]
    simpa using notClosed
  cases reached : host.router with
  | false =>
    rw [inferComplete, reached] at called
    cases called
    exact .now { Quiet.refl core with nextInfer := Nat.le_succ _ }
  | true =>
    have sent : Served host conn request core (.mcp task.id) .deferred
        (core.inferComplete host conn task decl mcpId args).2 :=
      .sent (Quiet.refl core) answerable isOpen (by simpa using free) reached
    have split : core.inferComplete host conn task decl mcpId args =
        (.deferred, (core.inferComplete host conn task decl mcpId args).2) := by
      rw [inferComplete, reached]
      rfl
    rw [split] at called
    cases called
    exact sent

theorem served_mcpLine {task : String} : Served host conn request core (.mcp task)
    (core.mcpLine host conn task request).1 (core.mcpLine host conn task request).2 := by
  rw [mcpLine]
  have recorded := quiet_record core host task "mcp_request"
    (.object [("method", .str request.method), ("params", request.params)])
  rcases called : (core.record host task "mcp_request"
      (.object [("method", .str request.method), ("params", request.params)])).inferenceCall
      host conn task request with _ | ⟨_ | _, after⟩
  · exact .now ((recorded.trans (quiet_mcpCall _ host task request)).trans
      (quiet_recordResponse _ host task request _))
  · rename_i result
    cases served_inferenceCall called with
    | now quiet =>
      exact .now ((recorded.trans quiet).trans
        (quiet_recordResponse _ host task request result))
  · exact (served_inferenceCall called).preceded recorded

end Posts

end Core

end EclipseOS.Agentd
