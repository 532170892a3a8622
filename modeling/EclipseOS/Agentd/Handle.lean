import EclipseOS.Agentd.Mcp

/-! # What reaches the core

Lines on connections, messages from `policyd`, from the router and from the helper
threads, the clock. A run is the list of what reached the core, each with what the
machine answered meanwhile; a shutdown ends it. -/

namespace EclipseOS.Agentd

open Foundation PolicyEval

inductive Msg where
  | «open» (conn : Nat) (surface : Surface)
  /-- A line, as the JSON parser read it. -/
  | line (conn : Nat) (read : Option Json)
  | closed (conn : Nat)
  | linkUp (channel : Channel)
  | linkDown
  | link (message : FromPolicyd)
  | decisions (count : UInt64)
  | procExit (task status : String)
  | humanReply (conn : Nat) (id : Option Json) (result : Except RpcError Json)
  | inference (id : Nat) (result : Except Failure Completion)
  | tick
  deriving DecidableEq

namespace Core

/-! ## Provisions -/

structure Prov where
  task : String
  principal : String
  package : String
  version : String
  statement : String
  deadlineMs : UInt64
  continuation : String
  resumes : String
  account : String
  deriving DecidableEq

def Prov.wellFormed (prov : Prov) : Bool :=
  (ulidFromText prov.task).isSome && safeComponent prov.package && safeComponent prov.version &&
    (prov.resumes = "" || (ulidFromText prov.resumes).isSome)

/-- The manifest's block; an unreadable or invalid one gives no tool. -/
def provInference (host : Host) (prov : Prov) : Option Inference :=
  match host.inference prov.package prov.version with
  | some (.ok inference) => inference
  | _ => none

/-- A resume starts where the old task ended, never cleaner. -/
def provTrust (core : Core) (prov : Prov) : String :=
  if prov.resumes = "" then
    "standard"
  else
    ((core.task prov.resumes).map Task.minTrust).getD "untrusted"

def provisioned (core : Core) (host : Host) (prov : Prov) : Task :=
  { Task.new prov.task host.now with
    principal := if principalOk prov.principal then prov.principal else "agent:" ++ prov.package
    package := prov.package
    version := prov.version
    statement := Sanitize.clean prov.statement
    deadlineMs := prov.deadlineMs
    continuation := prov.continuation
    account := if accountOk prov.account then prov.account else ""
    inference := provInference host prov
    minTrust := core.provTrust prov
    resumes := prov.resumes }

def startedJson (task : Task) : Json :=
  let started := Json.object
    [("task_id", .str task.id), ("package", .str task.package), ("statement", .str task.statement),
      ("deadline_ms", .ofNat task.deadlineMs.toNat)]
  if task.resumes = "" then started else started.set "resumes" (.str task.resumes)

/-- Creates the task's MCP socket, then starts its agent. -/
def launch (core : Core) (settings : Config) (host : Host) (id : String) : Bool × Core :=
  if !host.socket then
    (false, core)
  else if !settings.launch then
    (true, core)
  else if (core.task id).isNone || !host.started then
    (false, core)
  else
    (true, { core with procs := id :: core.procs.filter (· ≠ id) })

def provision (core : Core) (settings : Config) (host : Host) (prov : Prov) : Core :=
  if (core.task prov.task).isSome then
    core
  else if !prov.wellFormed then
    core.exited prov.task "failed"
  else if !host.metaWritten then
    core.exited prov.task "failed"
  else
    let task := core.provisioned host prov
    let core := (core.event "task_started" (startedJson task)).insertTask task
    match core.launch settings host task.id with
    | (true, core) => core
    | (false, core) => core.exited task.id "failed"

/-! ## The link -/

/-- What an acknowledged drain changes: the agent's inbox reports closed. -/
def drained (core : Core) (req : Nat) : Core :=
  match core.pending.lookup req with
  | some ⟨_, _, _, id, .cancel .drain⟩ =>
    match core.task id with
    | some task => core.setTask { task with drainRequested := true }
    | none => core
  | _ => core

def onLink (core : Core) (settings : Config) (host : Host) : FromPolicyd → Core
  | .provision task principal package version statement deadlineMs _ continuation resumes
      account =>
      core.provision settings host
        ⟨task, principal, package, version, statement, deadlineMs, continuation, resumes, account⟩
  | .taskState task state reason => core.taskState host task state reason
  | .revoked principal =>
    let ids := (core.tasks.filter fun task => task.principal = principal && !task.isClosed).map
      Task.id
    ids.foldl (fun core id => core.taskState host id "closed" "revoked") core
  | .done req =>
    (core.drained req.toNat).pendingReply req.toNat (.ok (.object [("ok", .bool true)]))
  | .refused req reason => core.pendingReply req.toNat (.error (.denied reason))
  | _ => core

/-- Reports the leftovers, from the end, until one does not go through. -/
def report : List String → Core → Core
  | [], core => { core with unreported := [] }
  | task :: rest, core =>
    let (req, core) := core.reqId
    match core.sendPolicyd (.exited (UInt64.ofNat req) task "failed") with
    | (true, core) => report rest core
    | (false, core) => { core with unreported := (task :: rest).reverse }

def linkUp (core : Core) (channel : Channel) : Core :=
  let core := core.auditQ.foldl sendAuditBytes { core with link := some channel, auditQ := [] }
  report core.unreported.reverse core

def linkDown (core : Core) : Core :=
  let reqs := core.pending.entries.map Sigma.fst
  reqs.foldl (fun core req => core.pendingReply req (.error .unavailable)) { core with link := none }

/-! ## Connections -/

/-- An MCP socket of a task that is not open is hung up on. -/
def openConn (core : Core) (conn : Nat) (surface : Surface) : Core :=
  let refused := match surface with
    | .mcp task => ((core.task task).map Task.isClosed).getD true
    | .console => false
  if refused then
    core.emit (.hangUp conn)
  else
    { core with conns := core.conns.insert conn ⟨surface, false⟩ }

def closeConn (core : Core) (conn : Nat) : Core :=
  let inferPending := Table.retain (fun _ call => call.conn ≠ conn) core.inferPending
  { core with
    conns := core.conns.erase conn
    pending := Table.retain (fun _ held => held.conn ≠ conn) core.pending
    inferPending := inferPending
    inferByTask := Table.retain (fun _ id => (inferPending.lookup id).isSome) core.inferByTask }

variable [Blake3] [JsonText]

def errorJson (error : RpcError) : Json :=
  .object
    [("code", .num (.other (toString error.code))), ("message", .str error.message),
      ("data", .object [("reason", .str error.reason)])]

def recordResponse (core : Core) (host : Host) (task : String) (request : Request)
    (result : Except RpcError Json) : Core :=
  if request.id = none then
    core
  else
    core.record host task "mcp_response" <| match result with
      | .ok value => .object [("method", .str request.method), ("result", value)]
      | .error error => .object [("method", .str request.method), ("error", errorJson error)]

def mcpLine (core : Core) (host : Host) (conn : Nat) (task : String) (request : Request) :
    Outcome × Core :=
  let core := core.record host task "mcp_request"
    (.object [("method", .str request.method), ("params", request.params)])
  match core.inferenceCall host conn task request with
  | some (.now result, core) => (.now result, core.recordResponse host task request result)
  | some (.deferred, core) => (.deferred, core)
  | none =>
    let (result, core) := core.mcpCall host task request
    (.now result, core.recordResponse host task request result)

def onRequest (core : Core) (settings : Config) (host : Host) (conn : Nat) (surface : Surface)
    (request : Request) : Core :=
  let (outcome, core) := match surface with
    | .console => core.consoleCall settings host conn request
    | .mcp task => core.mcpLine host conn task request
  match request.id, outcome with
  | some id, .now result => core.send conn id result
  | _, _ => core

def onLine (core : Core) (settings : Config) (host : Host) (conn : Nat) (read : Option Json) :
    Core :=
  match core.conns.lookup conn with
  | none => core
  | some held =>
    match parse read with
    | .reply id error => core.send conn id (.error error)
    | .req request => core.onRequest settings host conn held.surface request

/-! ## Runs -/

def handle (settings : Config) (core : Core) (host : Host) : Msg → Core
  | .open conn surface => core.openConn conn surface
  | .line conn read => core.onLine settings host conn read
  | .closed conn => core.closeConn conn
  | .linkUp channel => core.linkUp channel
  | .linkDown => core.linkDown
  | .link message => core.onLink settings host message
  | .decisions count =>
    if count = core.decisions then
      core
    else
      { core with decisions := count }.event "decisions_pending"
        (.object [("count", .ofNat count.toNat)])
  | .procExit task status =>
    let core := { core with procs := core.procs.filter (· ≠ task) }
    if (core.task task).any (!·.isClosed) then
      core.exited task status
    else
      core
  | .humanReply conn (some id) result => core.send conn id result
  | .humanReply _ none _ => core
  | .inference id result => core.onInference host id result
  | .tick => core.tick settings host

end Core

/-- What reaches the core, and what the machine answers meanwhile. -/
abbrev Moment := Host × Msg

variable [Blake3] [JsonText]

def Core.step (settings : Config) (core : Core) (moment : Moment) : Core :=
  Core.handle settings core moment.1 moment.2

def Core.run (settings : Config) (start : Core) (moments : List Moment) : Core :=
  moments.foldl (Core.step settings) start

end EclipseOS.Agentd
