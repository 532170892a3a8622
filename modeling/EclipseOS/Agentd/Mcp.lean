import EclipseOS.Agentd.Console

/-! # The agents' calls

What a task's own socket answers: conversation tools, the session it resumes, and one
inference call at a time. -/

namespace EclipseOS.Agentd

open Foundation PolicyEval

def msgsPerMin : Nat := 60

def bytesPerMin : Nat := 1024 * 1024

def windowMs : Nat := 60000

def restoreTool : String := "session.restore"

/-- The tool a task whose package declares `inference` alone has. -/
def inferenceTool : String := "inference.complete"

/-! ## The router's side of a call -/

namespace Router

def maxTokensCap : Nat := 64000

def maxTokensDefault : Nat := 16000

def downMessage : String := "the inference router (ec-inferenced) is not running"

/-- The checked arguments of one `inference.complete`. -/
structure Args where
  system : String
  messages : Json
  tools : Json
  maxTokens : Nat
  deriving DecidableEq

def parseSystem (arguments : Json) : Except String String :=
  match arguments.get "system" with
  | none => .ok ""
  | some (.str text) => .ok text
  | some _ => .error "system must be a string"

def parseMessages (arguments : Json) : Except String Json :=
  match arguments.get "messages" with
  | some messages =>
    if messages.asArray.any fun items => items ≠ [] && items.all Json.isObject then
      .ok messages
    else
      .error "messages must be a non-empty array of message objects"
  | none => .error "messages must be a non-empty array of message objects"

def parseTools (arguments : Json) : Except String Json :=
  match arguments.get "tools" with
  | none => .ok (.array [])
  | some tools =>
    if tools.asArray.any fun items => items.all Json.isObject then
      .ok tools
    else
      .error "tools must be an array of tool definitions"

def parseMaxTokens (arguments : Json) : Except String Nat :=
  match arguments.get "max_tokens" with
  | none => .ok maxTokensDefault
  | some value =>
    match value.asU64 with
    | some n =>
      if 1 ≤ n.toNat ∧ n.toNat ≤ maxTokensCap then
        .ok n.toNat
      else
        .error "max_tokens must be an integer from 1 to 64000"
    | none => .error "max_tokens must be an integer from 1 to 64000"

/-- `backend` and `model` are refused outright: they come from the manifest. -/
def parseArgs (arguments : Json) : Except String Args := do
  if !arguments.isObject then
    throw "arguments must be an object"
  if (arguments.get "model").isSome || (arguments.get "backend").isSome then
    throw "model and backend come from the package manifest, not the call"
  let system ← parseSystem arguments
  let messages ← parseMessages arguments
  let tools ← parseTools arguments
  let maxTokens ← parseMaxTokens arguments
  return ⟨system, messages, tools, maxTokens⟩

variable [JsonText]

def toolResult (result : Except Failure Completion) : Json :=
  let (text, isError) := match result with
    | .ok completion =>
      (Json.object [("content", completion.content), ("stop_reason", .str completion.stopReason),
        ("model", .str completion.model)], false)
    | .error failure =>
      (Json.object [("kind", .str failure.kind), ("message", .str failure.message)], true)
  .object
    [("content", .array [.object [("type", .str "text"), ("text", .str (JsonText.render text))]]),
      ("isError", .bool isError)]

end Router

/-! ## Tools -/

/-- A tool's input: an object of these properties. -/
def inputSchema (properties : List (String × Json)) (required : List String) : Json :=
  .object <|
    [("type", .str "object"), ("properties", .object properties)] ++
      if required = [] then [] else [("required", .array (required.map .str))]

def typed (kind : String) : Json := .object [("type", .str kind)]

def tool (name description : String) (schema : Json) : Json :=
  .object [("name", .str name), ("description", .str description), ("inputSchema", schema)]

def plainTools : List Json :=
  [tool "task.say" "Post a message to the human in this task's conversation."
      (inputSchema [("text", typed "string")] ["text"]),
    tool "task.ask" "Ask the human a question and mark the task as awaiting a reply."
      (inputSchema [("question", typed "string")] ["question"]),
    tool "task.inbox"
      "Read the human's messages after a cursor. `closed` is true once the task is ending."
      (inputSchema [("since", typed "integer")] [])]

def restoreEntry : Json :=
  tool restoreTool
    ("Restore the history of the session this task resumes: its recorded entries, then a " ++
      "boundary marker. Callable once. Every handle and revision from that session is " ++
      "invalid afterwards; re-observe before acting.")
    (inputSchema [] [])

def inferenceEntry : Json :=
  let schema := inputSchema
    [("system", typed "string"),
      ("messages", .object
        [("type", .str "array"), ("minItems", .ofNat 1), ("items", typed "object")]),
      ("tools", .object [("type", .str "array"), ("items", typed "object")]),
      ("max_tokens", .object
        [("type", .str "integer"), ("minimum", .ofNat 1),
          ("maximum", .ofNat Router.maxTokensCap), ("default", .ofNat Router.maxTokensDefault)])]
    ["messages"]
  tool inferenceTool
    ("Ask the model this package is declared to use for one completion (Messages API " ++
      "shape). The model and backend are fixed by the package manifest. One call at a time " ++
      "per task.")
    (schema.set "additionalProperties" (.bool false))

def toolsList (plain inference : Bool) : Json :=
  .object [("tools", .array <|
    plainTools ++ (if plain then [] else [restoreEntry]) ++
      if inference then [inferenceEntry] else [])]

def boundary : Json :=
  .object
    [("kind", .str "boundary"),
      ("text", .str <| "The environment changed: every handle and revision from the restored " ++
        "session is invalid. Re-observe before acting.")]

namespace Core

/-! ## Posts, the inbox and the restored session -/

/-- What an agent's post checks before the quota. -/
def sayable (core : Core) (id raw : String) : Except String (Task × String) := do
  let task ← (core.task id).elim (throw "not_found") pure
  if task.isClosed then
    throw "closed"
  let text := Sanitize.clean raw
  if Sanitize.isBlank text then
    throw "empty"
  if Sanitize.maxText < text.utf8ByteSize then
    throw "too_large"
  return (task, text)

/-- An agent's `say` or `ask`. -/
def agentPost [Blake3] (core : Core) (host : Host) (id : String) (kind : MessageKind)
    (raw : String) : Except String Json × Core :=
  match core.sayable id raw with
  | .error reason => (.error reason, core)
  | .ok (task, text) =>
    let size := text.utf8ByteSize
    let task := { task with
      window := task.window.dropWhile fun post => windowMs ≤ host.now - post.1 }
    if msgsPerMin ≤ task.window.length ∨
        bytesPerMin < (task.window.map Prod.snd).sum + size then
      let core := core.setTask { task with
        counters := { task.counters with quotaExceeded := task.counters.quotaExceeded + 1 } }
      (.error "quota_exceeded",
        core.channelAudit id task.principal none size "quota_exceeded")
    else if !host.messageStored then
      (.error "io", core.setTask task)
    else
      let message : Message :=
        ⟨task.nextMsg, host.now, kind, text, none, task.minTrust, task.principal⟩
      let changed := kind = .ask && !task.awaitingReply
      let core := core.setTask { task with
        nextMsg := task.nextMsg + 1
        msgs := task.msgs ++ [message]
        window := task.window ++ [(host.now, size)]
        counters := { task.counters with
          messagesPosted := task.counters.messagesPosted + 1
          bytesPosted := task.counters.bytesPosted + size }
        awaitingReply := task.awaitingReply || changed }
      let core := core.record host id "message" (.object [("message", message.toJson)])
      let core := core.channelAudit id task.principal (some message) size "post"
      let core := core.event "message" (message.event id)
      let core := if changed then core.awaitingEvent id true else core
      (.ok (.object [("msg_id", .ofNat message.msgId)]), core)

/-- Human and context messages after a cursor. -/
def inbox [Blake3] (core : Core) (id : String) (since : Nat) : Except String Json × Core :=
  match core.task id with
  | none => (.error "not_found", core)
  | some task =>
    let messages := (task.msgs.filter fun message =>
      since < message.msgId && (message.kind = .human || message.kind = .context)).take 100
    let cursor := (messages.getLast?.map Message.msgId).getD since
    (.ok (.object
        [("messages", .array (messages.map Message.toJson)),
          ("closed", .bool task.inboxClosed), ("cursor", .ofNat cursor)]),
      auditRead id task.principal messages core)

/-- The old session's record, then the boundary marker. Answers once. -/
def restore (core : Core) (host : Host) (id : String) : Except String Json × Core :=
  match core.task id with
  | none => (.error "not_found", core)
  | some task =>
    if task.restoreTaken then
      (.error "already_restored", core)
    else
      match host.session task.resumes with
      | none => (.error "session_unavailable", core)
      | some entries =>
        (.ok (.object
            [("entries", .array (entries ++ [boundary])),
              ("restored", .ofNat entries.length), ("resumes", .str task.resumes)]),
          core.setTask { task with restoreTaken := true })

variable [JsonText]

def toolReply : Except String Json → Json
  | .ok value => .object
      [("content", .array
          [.object [("type", .str "text"), ("text", .str (JsonText.render value))]]),
        ("structuredContent", value), ("isError", .bool false)]
  | .error reason =>
    let value := Json.object [("error", .str reason)]
    .object
      [("content", .array
          [.object [("type", .str "text"), ("text", .str (JsonText.render value))]]),
        ("structuredContent", value), ("isError", .bool true)]

/-- Runs a tool on its argument, if the argument is there. -/
def withArgument {α : Type} (core : Core) (argument : Except RpcError α)
    (run : α → Except String Json × Core) : Except RpcError Json × Core :=
  match argument with
  | .error error => (.error error, core)
  | .ok argument => (.ok (toolReply (run argument).1), (run argument).2)

def mcpTool [Blake3] (core : Core) (host : Host) (task : String) (params : Json) :
    Except RpcError Json × Core :=
  let arguments := (params.get "arguments").getD (.object [])
  match pStr params "name" with
  | .error error => (.error error, core)
  | .ok "task.say" => core.withArgument (pStr arguments "text") (core.agentPost host task .say)
  | .ok "task.ask" =>
    core.withArgument (pStr arguments "question") (core.agentPost host task .ask)
  | .ok "task.inbox" =>
    core.withArgument (pU64 arguments "since") fun since =>
      core.inbox task (since.getD 0).toNat
  | .ok name =>
    -- Only a task that resumes another has this tool; for others the name never existed.
    if name = restoreTool ∧ (core.task task).any (·.resumes ≠ "") then
      core.withArgument (.ok ()) fun _ => core.restore host task
    else
      (.error (.invalidParams "unknown tool"), core)

def handshake (task : Task) (params : Json) : Json :=
  .object
    [("protocolVersion", .str (((params.get "protocolVersion").bind Json.asStr).getD "2025-06-18")),
      ("capabilities", .object [("tools", .object [("listChanged", .bool false)])]),
      ("serverInfo", .object [("name", .str "ec-agentd"), ("version", .str "0.1.0")]),
      ("instructions", .str task.statement)]

def mcpCall [Blake3] (core : Core) (host : Host) (task : String) (request : Request) :
    Except RpcError Json × Core :=
  if request.method = "initialize" then
    ((core.taskRef task).map fun held => handshake held request.params, core)
  else if startsWith "notifications/" request.method then
    (.ok .null, core)
  else if request.method = "ping" then
    (.ok (.object []), core)
  else if request.method = "tools/list" then
    ((core.taskRef task).map fun held =>
      toolsList (held.resumes = "") held.inference.isSome, core)
  else if request.method = "tools/call" then
    core.mcpTool host task request.params
  else
    (.error .methodNotFound, core)

/-! ## Inference -/

/-- A tool result that says why no call was made. -/
def inferFailed (kind message : String) : Outcome :=
  .now (.ok (Router.toolResult (.error ⟨kind, message⟩)))

/-- Hands a call to the router, and notes where its answer goes. -/
def inferComplete (core : Core) (host : Host) (conn : Nat) (task : Task) (decl : Inference)
    (mcpId : Json) (args : Router.Args) : Outcome × Core :=
  let id := core.nextInfer
  let core := { core with nextInfer := id + 1 }
  if !host.router then
    (inferFailed "backend_unavailable" Router.downMessage, core)
  else
    let core := core.emit (.router (.complete
      ⟨id, task.id, task.package, decl.backend, decl.model, args.system, args.messages, args.tools,
        args.maxTokens, task.account⟩))
    (.deferred, { core with
      inferByTask := core.inferByTask.insert task.id id
      inferPending := core.inferPending.insert id ⟨task.id, conn, mcpId⟩ })

/-- Nothing for a call that is not `inference.complete`, or a task that may not make it. -/
def inferenceCall (core : Core) (host : Host) (conn : Nat) (id : String) (request : Request) :
    Option (Outcome × Core) :=
  if request.method ≠ "tools/call" ∨
      (request.params.get "name").bind Json.asStr ≠ some inferenceTool then
    none
  else
    match core.task id with
    | none => none
    | some task =>
      match task.inference with
      | none => none
      | some decl =>
        match request.id with
        -- A notification has no one to answer.
        | none => some (.now (.ok .null), core)
        | some mcpId =>
          if task.isClosed then
            some (.now (.error .closed), core)
          else
            match Router.parseArgs ((request.params.get "arguments").getD (.object [])) with
            | .error message => some (.now (.error (.invalidParams message)), core)
            | .ok args =>
              if (core.inferByTask.lookup id).isSome then
                some
                  (inferFailed "rate_limited" "one inference call at a time per task", core)
              else
                some (core.inferComplete host conn task decl mcpId args)

def onInference (core : Core) (host : Host) (id : Nat) (result : Except Failure Completion) :
    Core :=
  match core.inferPending.lookup id with
  | none => core
  | some call =>
    let core := { core with
      inferPending := core.inferPending.erase id
      inferByTask := core.inferByTask.erase call.task }
    let answer := Router.toolResult result
    let core := core.record host call.task "mcp_response"
      (.object [("method", .str "tools/call"), ("result", answer)])
    core.send call.conn call.mcpId (.ok answer)

end Core

end EclipseOS.Agentd
