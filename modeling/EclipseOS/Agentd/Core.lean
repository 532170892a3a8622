import EclipseOS.Agentd.Task
import EclipseOS.Foundation.Table
import EclipseOS.PolicyEval.Emission
import EclipseOS.PolicyEval.Link

/-! # The core of `agentd`

One thread owns every task, conversation and connection, and takes its messages one at
a time. What leaves it is kept in order in `log`: replies and events on connections,
messages on the two links, and what it has other threads and the disk do. Writes to the
disk whose failure the core only reports are left out. -/

namespace EclipseOS.Agentd

open Foundation PolicyEval

/-- How long a pause or cancel waits for `policyd` before the console is told. -/
def pendingMs : Nat := 5000

def sweepEveryMs : Nat := 3600000

def auditQueue : Nat := 4096

inductive Surface where
  | console
  /-- An agent's MCP socket; the task is fixed by the socket. -/
  | mcp (task : String)
  deriving DecidableEq

structure Conn where
  surface : Surface
  subscribed : Bool
  deriving DecidableEq

inductive Action where
  | pause
  | cancel (mode : CancelMode)
  deriving DecidableEq

structure Pending where
  conn : Nat
  id : Option Json
  deadline : Nat
  task : String
  action : Action
  deriving DecidableEq

/-- An `inference.complete` waiting on the router: where its answer goes. -/
structure InferCall where
  task : String
  conn : Nat
  mcpId : Json
  deriving DecidableEq

structure InferRequest where
  id : Nat
  task : String
  package : String
  backend : Backend
  model : String
  system : String
  messages : Json
  tools : Json
  maxTokens : Nat
  account : String
  deriving DecidableEq

inductive ToRouter where
  | complete (request : InferRequest)
  | close (task : String)
  deriving DecidableEq

structure Completion where
  content : Json
  stopReason : String
  model : String
  deriving DecidableEq

structure Failure where
  kind : String
  message : String
  deriving DecidableEq

/-- What a helper thread asks of the compositor. -/
inductive HumanCall where
  | showDecisions
  | unlockSecrets
  deriving DecidableEq

inductive Out where
  | reply (conn : Nat) (id : Json) (result : Except RpcError Json)
  | event (conn : Nat) (name : String) (data : Json)
  | policyd (message : ToPolicyd)
  | audit (emission : Bytes)
  | router (message : ToRouter)
  /-- A thread is started that asks, and answers with its outcome. -/
  | ask (conn : Nat) (id : Option Json) (call : HumanCall)
  | record (task kind : String) (timeMs : Nat) (body : Json)
  | stop (task : String)
  | hangUp (conn : Nat)
  deriving DecidableEq

/-- The sender of a link, and how many messages its thread takes before it is gone. -/
structure Channel where
  takes : Option Nat
  deriving DecidableEq

def Channel.send : Channel → Option Channel
  | ⟨none⟩ => some ⟨none⟩
  | ⟨some 0⟩ => none
  | ⟨some (n + 1)⟩ => some ⟨some n⟩

structure Config where
  launch : Bool
  humanSocket : Bool
  retentionMs : Nat

/-- What the machine around the core answers while one message is handled. -/
structure Host where
  now : Nat
  metaWritten : Bool
  messageStored : Bool
  /-- `list_packages`. -/
  packages : List Json
  /-- Whether a package is found, and its `inference` block. -/
  inference : String → String → Option (Except String (Option Inference))
  resumable : String → String → Bool
  /-- The task's MCP socket is there. -/
  socket : Bool
  /-- The agent was started. -/
  started : Bool
  /-- `Sessions::read`. -/
  session : String → Option (List Json)
  /-- The router's satellite takes messages. -/
  router : Bool

structure Core where
  log : List Out
  tasks : List Task
  conns : Table Nat Conn
  link : Option Channel
  auditQ : List Bytes
  pending : Table Nat Pending
  nextReq : Nat
  decisions : UInt64
  lastShowMs : Option Nat
  lastUnlockMs : Option Nat
  procs : List String
  lastSweepMs : Nat
  nextInfer : Nat
  inferPending : Table Nat InferCall
  /-- Task to its one call in flight. -/
  inferByTask : Table String Nat
  /-- Tasks found open on disk at startup, which `policyd` is told once the link is up. -/
  unreported : List String

namespace Core

/-! ## Plumbing -/

def emit (core : Core) (out : Out) : Core := { core with log := core.log ++ [out] }

def reqId (core : Core) : Nat × Core := (core.nextReq, { core with nextReq := core.nextReq + 1 })

def send (core : Core) (conn : Nat) (id : Json) (result : Except RpcError Json) : Core :=
  match core.conns.lookup conn with
  | some _ => core.emit (.reply conn id result)
  | none => core

/-- One event to every subscribed console connection. -/
def event (core : Core) (name : String) (data : Json) : Core :=
  { core with
    log := core.log ++ core.conns.entries.filterMap fun ⟨conn, held⟩ =>
      if held.surface = .console ∧ held.subscribed then some (.event conn name data) else none }

def sendPolicyd (core : Core) (message : ToPolicyd) : Bool × Core :=
  match core.link with
  | none => (false, core)
  | some channel =>
    match channel.send with
    | some rest => (true, { core with link := some rest }.emit (.policyd message))
    | none => (false, { core with link := none })

def queueAudit (core : Core) (emission : Bytes) : Core :=
  { core with
    auditQ := (if auditQueue ≤ core.auditQ.length then core.auditQ.tail else core.auditQ) ++
      [emission] }

def sendAuditBytes (core : Core) (emission : Bytes) : Core :=
  match core.link with
  | none => core.queueAudit emission
  | some channel =>
    match channel.send with
    | some rest => { core with link := some rest }.emit (.audit emission)
    | none => { core with link := none }.queueAudit emission

/-- A `channel` record: id, size and chain hash, never the text. -/
def channelEmission [Blake3] (task principal : String) (message : Option Message) (size : Nat)
    (op : String) : Emission where
  kind := .channel
  principal := if principalOk principal then principal else "human"
  grantId := none
  taskId := ulidFromText task
  chainId := none
  reqId := none
  serial := none
  body :=
    let chain := match message with
      | some message => Cbor.utf8 message.minTrust ++ [0] ++ Cbor.utf8 message.head
      | none => []
    Cbor.MapBuilder.new
      |>.insert "chain_hash" (Cbor.Writer.bytes (Blake3.hash chain).val)
      |>.insert "msg_id"
        (Cbor.Writer.u64 (UInt64.ofNat ((message.map Message.msgId).getD 0)))
      |>.insert "op" (Cbor.Writer.text op)
      |>.insert "size" (Cbor.Writer.u64 (UInt64.ofNat size))
      |>.finish

def channelAudit [Blake3] (core : Core) (task principal : String) (message : Option Message)
    (size : Nat) (op : String) : Core :=
  core.sendAuditBytes (channelEmission task principal message size op).encode

def record (core : Core) (host : Host) (task kind : String) (body : Json) : Core :=
  core.emit (.record task kind host.now body)

/-! ## Tasks -/

def task (core : Core) (id : String) : Option Task := core.tasks.find? (·.id = id)

/-- Unknown and not ours are the same answer. -/
def taskRef (core : Core) (id : String) : Except RpcError Task :=
  match core.task id with
  | some task => .ok task
  | none => .error .notFound

def setTask (core : Core) (task : Task) : Core :=
  { core with tasks := core.tasks.map fun held => if held.id = task.id then task else held }

/-- A task that is not held yet, in the order of the ids. -/
def insertTask (core : Core) (task : Task) : Core :=
  { core with tasks := core.tasks.orderedInsert (fun left right => left.id ≤ right.id) task }

def removeTask (core : Core) (id : String) : Core :=
  { core with tasks := core.tasks.filter (·.id ≠ id) }

/-- Tells `policyd` that a task has no agent; nothing is kept for when that fails. -/
def exited (core : Core) (task reason : String) : Core :=
  let (req, core) := core.reqId
  (core.sendPolicyd (.exited (UInt64.ofNat req) task reason)).2

def pendingReply (core : Core) (req : Nat) (result : Except RpcError Json) : Core :=
  match core.pending.lookup req with
  | none => core
  | some held =>
    let core := { core with pending := core.pending.erase req }
    match held.id with
    | some id => core.send held.conn id result
    | none => core

def stopAgent (core : Core) (id : String) : Core :=
  if id ∈ core.procs then
    { core with procs := core.procs.filter (· ≠ id) }.emit (.stop id)
  else
    core

def hangUp (core : Core) (id : String) : Core :=
  let gone := core.conns.entries.filter fun ⟨_, held⟩ => held.surface = .mcp id
  { core with
    conns := Table.retain (fun _ held => held.surface ≠ .mcp id) core.conns
    log := core.log ++ gone.map fun ⟨conn, _⟩ => .hangUp conn }

/-- The task is closed: stop its agent and socket, then say so. -/
def finishClose (core : Core) (host : Host) (id reason : String) : Core :=
  let core := (core.stopAgent id).hangUp id
  let core := { core with
    pending := Table.retain (fun _ held => held.task ≠ id) core.pending
    -- A call still waiting is dropped, and the router told.
    inferPending := Table.retain (fun _ call => call.task ≠ id) core.inferPending
    inferByTask := core.inferByTask.erase id }
  let core := if host.router then core.emit (.router (.close id)) else core
  core.event "task_closed" (.object [("task_id", .str id), ("reason", .str reason)])

def awaitingEvent (core : Core) (id : String) (awaiting : Bool) : Core :=
  core.event "awaiting_reply" (.object [("task_id", .str id), ("awaiting", .bool awaiting)])

def taskState (core : Core) (host : Host) (id state reason : String) : Core :=
  if state ∉ ["active", "paused", "draining", "closed"] then
    core
  else
    match core.task id with
    | none => core
    | some task =>
      if task.isClosed || (task.state = state && task.reason = reason) then
        core
      else
        let changed := { task with state, reason }
        let closing := state = "closed"
        let changed :=
          if closing then
            { changed with closedMs := some host.now, awaitingReply := false }
          else
            changed
        let core := (core.setTask changed).event "task_state"
          (.object [("task_id", .str id), ("state", .str state), ("reason", .str reason)])
        if closing then
          (if task.awaitingReply then core.awaitingEvent id false else core).finishClose host
            id reason
        else
          core

/-- Whether the retention of a closed task is over. -/
def isOld (config : Config) (host : Host) (task : Task) : Bool :=
  match task.closedMs with
  | some closed => closed + config.retentionMs ≤ host.now
  | none => false

/-- Retention: closed tasks older than the window go. -/
def sweep (core : Core) (config : Config) (host : Host) : Core :=
  let old := (core.tasks.filter (isOld config host)).map Task.id
  old.foldl removeTask core

def late (core : Core) (host : Host) : List Nat :=
  (core.pending.entries.filter fun entry => entry.2.deadline ≤ host.now).map Sigma.fst

def timeOut (core : Core) (host : Host) : Core :=
  (core.late host).foldl (fun core req => core.pendingReply req (.error .unavailable)) core

def tick (core : Core) (config : Config) (host : Host) : Core :=
  let core := core.timeOut host
  if sweepEveryMs ≤ host.now - core.lastSweepMs then
    { core with lastSweepMs := host.now }.sweep config host
  else
    core

/-- A task still open on disk lost its agent with the last `agentd`. -/
def foundOnDisk (host : Host) (task : Task) : Task :=
  if task.isClosed then
    task
  else
    { task with
      state := "closed"
      reason := "agentd_restart"
      closedMs := some host.now
      awaitingReply := false }

/-- `Core::new`, over the tasks the store holds. -/
def new (config : Config) (host : Host) (loaded : List Task) : Core :=
  let core : Core := {
    log := []
    tasks := []
    conns := ∅
    link := none
    auditQ := []
    pending := ∅
    nextReq := 1
    decisions := 0
    lastShowMs := none
    lastUnlockMs := none
    procs := []
    lastSweepMs := host.now
    nextInfer := 1
    inferPending := ∅
    inferByTask := ∅
    unreported := (loaded.filter (!·.isClosed)).map Task.id }
  (loaded.foldl (fun core task => (core.removeTask task.id).insertTask (foundOnDisk host task))
    core).sweep config host

end Core

end EclipseOS.Agentd
