import EclipseOS.Agentd.Core

/-! # The console's calls -/

namespace EclipseOS.Agentd

open Foundation PolicyEval

/-- A call is answered now, or by a message yet to come. -/
inductive Outcome where
  | now (result : Except RpcError Json)
  | deferred

namespace Core

/-- `null`, and no value, are no state. -/
def wantedState (params : Json) : Except RpcError (Option String) :=
  match params.get "state" with
  | none | some .null => .ok none
  | some value =>
    match value.asStr with
    | some state =>
      if state ∈ ["active", "paused", "draining", "closed"] then
        .ok (some state)
      else
        .error (.invalidParams "state must be active, paused, draining or closed")
    | none => .error (.invalidParams "state must be active, paused, draining or closed")

def isWanted (want : Option String) (task : Task) : Bool :=
  match want with
  | some state => task.state = state
  | none => !task.isClosed

def startedFirst (left right : Task) : Bool :=
  left.startedMs < right.startedMs || (left.startedMs = right.startedMs && left.id ≤ right.id)

def closedLast (left right : Task) : Bool :=
  let closed (task : Task) := task.closedMs.getD 0
  closed right < closed left || (closed right = closed left && right.id ≤ left.id)

def listTasks (core : Core) (params : Json) : Except RpcError Json := do
  let want ← wantedState params
  let tasks := (core.tasks.filter (isWanted want)).mergeSort startedFirst
  return .object
    [("tasks", .array (tasks.map Task.toJson)), ("available", .bool core.link.isSome),
      ("decisions_pending", .ofNat core.decisions.toNat)]

def getTask (core : Core) (params : Json) : Except RpcError Json := do
  let task ← core.taskRef (← pStr params "task_id")
  return (task.toJson.set "subtree" (.array [])).set "available" (.bool core.link.isSome)

/-- The task, and the messages past the cursor. -/
def unread (core : Core) (params : Json) : Except RpcError (Task × List Message) := do
  let id ← pStr params "task_id"
  let since ← pU64 params "since"
  let task ← core.taskRef id
  return (task, (task.msgs.filter fun message => (since.getD 0).toNat < message.msgId).take 500)

def auditRead [Blake3] (task principal : String) (messages : List Message) (core : Core) : Core :=
  messages.foldl
    (fun core message =>
      core.channelAudit task principal (some message) message.text.utf8ByteSize "read")
    core

def conversationRead [Blake3] (core : Core) (params : Json) : Except RpcError Json × Core :=
  match core.unread params with
  | .error error => (.error error, core)
  | .ok (task, messages) =>
    (.ok (.object
        [("messages", .array (messages.map Message.toJson)), ("closed", .bool task.isClosed),
          ("awaiting_reply", .bool task.awaitingReply)]),
      auditRead task.id "human" messages core)

/-- What a post checks before it stores anything. -/
def postable (core : Core) (params : Json) :
    Except RpcError (Task × String × Option UInt64) := do
  let id ← pStr params "task_id"
  let raw ← pStr params "text"
  let replyTo ← pU64 params "reply_to"
  let task ← core.taskRef id
  if task.isClosed then
    throw .closed
  let text := Sanitize.clean raw
  if Sanitize.isBlank text then
    throw (.invalidParams "text is empty")
  if Sanitize.maxText < text.utf8ByteSize then
    throw (.invalidParams "text is over 16 KiB")
  if replyTo.any fun id => !task.msgs.any fun message => message.msgId = id.toNat then
    throw (.invalidParams "reply_to names no message")
  return (task, text, replyTo)

def conversationPost [Blake3] (core : Core) (host : Host) (params : Json) :
    Except RpcError Json × Core :=
  match core.postable params with
  | .error error => (.error error, core)
  | .ok (task, text, replyTo) =>
    if !host.messageStored then
      (.error ⟨-32603, "io", "cannot store the message"⟩, core)
    else
      -- A human post informs; it does not authorise: never stamped `human`.
      let message : Message :=
        ⟨task.nextMsg, host.now, .human, text, replyTo, "standard", "human_client"⟩
      let core := core.setTask { task with
        nextMsg := task.nextMsg + 1
        msgs := task.msgs ++ [message]
        counters := { task.counters with humanPosts := task.counters.humanPosts + 1 }
        awaitingReply := false }
      let core := core.record host task.id "message" (.object [("message", message.toJson)])
      let core := core.channelAudit task.id "human" (some message) text.utf8ByteSize "post"
      let core := core.event "message" (message.event task.id)
      let core := if task.awaitingReply then core.awaitingEvent task.id false else core
      (.ok (.object [("msg_id", .ofNat message.msgId), ("time_ms", .ofNat message.timeMs)]),
        core)

/-- The task and the action a pause or cancel names. -/
def pauseOrCancel (request : Request) : Except RpcError (String × Action) := do
  let id ← pStr request.params "task_id"
  if request.method = "pause_task" then
    return (id, .pause)
  else
    match ← pStr request.params "mode" with
    | "drain" => return (id, .cancel .drain)
    | "immediate" => return (id, .cancel .immediate)
    | _ => throw (.invalidParams "mode must be drain or immediate")

def actionMessage (req : Nat) (task : String) : Action → ToPolicyd
  | .pause => .pauseTask (UInt64.ofNat req) task
  | .cancel mode => .cancelTask (UInt64.ofNat req) task mode

/-- What a pause or cancel checks before anything is sent. -/
def pausable (core : Core) (request : Request) : Except RpcError (String × Action) := do
  let (id, action) ← pauseOrCancel request
  let task ← core.taskRef id
  if task.isClosed then
    throw .closed
  return (id, action)

def pauseCancel (core : Core) (host : Host) (conn : Nat) (request : Request) : Outcome × Core :=
  match core.pausable request with
  | .error error => (.now (.error error), core)
  | .ok (id, action) =>
    let (req, core) := core.reqId
    match core.sendPolicyd (actionMessage req id action) with
    | (false, core) => (.now (.error .unavailable), core)
    | (true, core) =>
      (.deferred, { core with
        pending := core.pending.insert req
          ⟨conn, request.id, host.now + pendingMs, id, action⟩ })

def tooSoon (last : Option Nat) (now : Nat) : Bool := last.any fun last => now - last < 1000

/-- A helper thread asks the compositor; its answer comes back as a message. -/
def askHuman (core : Core) (settings : Config) (host : Host) (conn : Nat) (request : Request)
    (call : HumanCall) (last : Option Nat) (limited : String) (started : Core) :
    Outcome × Core :=
  if tooSoon last host.now then
    (.now (.error (.rateLimited limited)), core)
  else if !settings.humanSocket then
    (.now (.error .unavailable), core)
  else
    (.deferred, started.emit (.ask conn request.id call))

def showDecisions (core : Core) (settings : Config) (host : Host) (conn : Nat)
    (request : Request) : Outcome × Core :=
  core.askHuman settings host conn request .showDecisions core.lastShowMs
    "show_decisions is limited to once a second" { core with lastShowMs := some host.now }

def unlockSecrets (core : Core) (settings : Config) (host : Host) (conn : Nat)
    (request : Request) : Outcome × Core :=
  core.askHuman settings host conn request .unlockSecrets core.lastUnlockMs
    "unlock_secrets is limited to once a second" { core with lastUnlockMs := some host.now }

/-- Whether a session may be resumed: closed, its package still there, its record kept. -/
def eligible (host : Host) (task : Task) : Bool :=
  task.isClosed && (host.session task.id).isSome && host.resumable task.package task.version

def sessionJson (host : Host) (task : Task) : Json :=
  .object
    [("task_id", .str task.id), ("package", .str task.package), ("statement", .str task.statement),
      ("reason", .str task.reason), ("closed_ms", task.closedJson),
      ("min_trust", .str task.minTrust), ("resumes", task.resumesJson),
      ("eligible", .bool (eligible host task))]

def listSessions (core : Core) (host : Host) (params : Json) : Except RpcError Json := do
  let since ← pU64 params "since"
  let tasks := (core.tasks.filter fun task => task.closedMs.any ((since.getD 0).toNat < ·)).mergeSort
    closedLast
  return .object [("sessions", .array (tasks.map (sessionJson host)))]

def deleteSession (core : Core) (params : Json) : Except RpcError Json × Core :=
  match pStr params "task_id" >>= core.taskRef with
  | .error error => (.error error, core)
  | .ok task =>
    if task.isClosed then
      (.ok (.object [("deleted", .bool true)]), core.removeTask task.id)
    else
      (.error (.invalidParams "only a closed task has a session to delete"), core)

def eventNames : List String :=
  ["task_started", "task_state", "message", "awaiting_reply", "decisions_pending", "task_closed"]

def setSubscribed (core : Core) (conn : Nat) (subscribed : Bool) : Core :=
  match core.conns.lookup conn with
  | some held => { core with conns := core.conns.insert conn { held with subscribed } }
  | none => core

def answered (answer : Except RpcError Json × Core) : Outcome × Core := (.now answer.1, answer.2)

def consoleCall [Blake3] (core : Core) (settings : Config) (host : Host) (conn : Nat)
    (request : Request) : Outcome × Core :=
  let params := request.params
  match request.method with
  | "list_packages" => answered (.ok (.object [("packages", .array host.packages)]), core)
  | "list_tasks" => answered (core.listTasks params, core)
  | "get_task" => answered (core.getTask params, core)
  | "conversation_read" => answered (core.conversationRead params)
  | "conversation_post" => answered (core.conversationPost host params)
  | "pause_task" | "cancel_task" => core.pauseCancel host conn request
  | "show_decisions" => core.showDecisions settings host conn request
  | "unlock_secrets" => core.unlockSecrets settings host conn request
  | "list_sessions" => answered (core.listSessions host params, core)
  | "delete_session" => answered (core.deleteSession params)
  | "subscribe" =>
    answered
      (.ok (.object
        [("subscribed", .bool true), ("events", .array (eventNames.map .str)),
          ("available", .bool core.link.isSome),
          ("decisions_pending", .ofNat core.decisions.toNat)]),
        core.setSubscribed conn true)
  | "unsubscribe" => answered (.ok (.object []), core.setSubscribed conn false)
  | _ => answered (.error .methodNotFound, core)

end Core

end EclipseOS.Agentd
