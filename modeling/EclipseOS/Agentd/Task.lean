import EclipseOS.Foundation.Json
import EclipseOS.PolicyEval.Link
import EclipseOS.PolicyEval.Task
import EclipseOS.Policyd.Tasks.Store

/-! # Requests and replies

Line-delimited JSON-RPC, as the console socket and the tasks' own sockets speak it. A
line is what the JSON parser read in it, or nothing. -/

namespace EclipseOS.Agentd

open Foundation

structure RpcError where
  code : Int
  reason : String
  message : String
  deriving DecidableEq

namespace RpcError

def invalidParams (message : String) : RpcError := ⟨-32602, "invalid_params", message⟩

def notFound : RpcError := ⟨-32002, "not_found", "no such task"⟩

def unavailable : RpcError := ⟨-32003, "unavailable", "policyd is not linked"⟩

def closed : RpcError := ⟨-32006, "closed", "the task is closed"⟩

def methodNotFound : RpcError := ⟨-32601, "method_not_found", "unknown method"⟩

def rateLimited (message : String) : RpcError := ⟨-32004, "rate_limited", message⟩

/-- What `policyd` refused. -/
def denied (reason : String) : RpcError := ⟨-32000, reason, "policyd refused"⟩

end RpcError

/-- `id` is missing from a notification, `params` is always an object. -/
structure Request where
  id : Option Json
  method : String
  params : Json
  deriving DecidableEq

inductive Parsed where
  | req (request : Request)
  /-- A malformed request: the reply to send. -/
  | reply (id : Json) (error : RpcError)
  deriving DecidableEq

def parse (read : Option Json) : Parsed :=
  let bad (message : String) : Parsed := .reply .null ⟨-32600, "invalid_request", message⟩
  match read with
  | none => .reply .null ⟨-32700, "parse_error", "not JSON"⟩
  | some value =>
    if !value.isObject then
      bad "batches and non-objects are not supported"
    else if (value.get "jsonrpc").bind Json.asStr ≠ some "2.0" then
      bad "jsonrpc must be \"2.0\""
    else
      match (value.get "method").bind Json.asStr with
      | none => bad "method must be a string"
      | some method =>
        let params (id : Option Json) : Parsed :=
          match value.get "params" with
          | none => .req ⟨id, method, .object []⟩
          | some params =>
            if params.isObject then
              .req ⟨id, method, params⟩
            else
              .reply (id.getD .null) (.invalidParams "params must be an object")
        match value.get "id" with
        | none => params none
        | some (.str text) => params (some (.str text))
        | some (.num number) => params (some (.num number))
        | some .null => params (some .null)
        | some _ => bad "id must be a string, number or null"

def pStr (params : Json) (key : String) : Except RpcError String :=
  match (params.get key).bind Json.asStr with
  | some text => .ok text
  | none => .error (.invalidParams (key ++ " must be a string"))

def pU64 (params : Json) (key : String) : Except RpcError (Option UInt64) :=
  match params.get key with
  | none | some .null => .ok none
  | some value =>
    match value.asU64 with
    | some n => .ok (some n)
    | none => .error (.invalidParams (key ++ " must be an unsigned integer"))

end EclipseOS.Agentd

/-! ## Tasks and their conversations

What `agentd` keeps of a task, and the texts it shows of it. -/

namespace EclipseOS.Agentd

open Foundation PolicyEval

/-- The JSON writer: a value on one line. -/
class JsonText where
  render : Json → String

/-! ## Names and texts -/

def ulidFromText (text : String) : Option Ulid :=
  if text.utf8ByteSize ≠ 26 then
    none
  else
    match text.toList.mapM fun char => Ulid.crockford.idxOf? char with
    | some (first :: rest) =>
      if 7 < first then
        none
      else
        some ⟨bigEndian 16 ((first :: rest).foldl (fun n digit => n <<< 5 ||| digit) 0),
          by simp⟩
    | _ => none

/-- `str::starts_with`. -/
def startsWith (start text : String) : Bool := start.toList.isPrefixOf text.toList

/-- `packages::safe_component`. -/
def safeComponent (name : String) : Bool :=
  name ≠ "" && name.utf8ByteSize ≤ 128 && !startsWith "." name &&
    name.toList.all fun char =>
      char.isAlphanum || char = '-' || char = '_' || char = '.' || char = '+'

namespace Sanitize

/-- The largest conversation message, in bytes. -/
def maxText : Nat := 16 * 1024

/-- Controls other than newline and tab, and what lies about the order of a text. -/
def bad (char : Char) : Bool :=
  let n := char.toNat
  if char = '\n' ∨ char = '\t' then
    false
  else
    n < 0x20 || (0x7f ≤ n && n ≤ 0x9f) || n = 0x61c || n = 0x200e || n = 0x200f ||
      (0x202a ≤ n && n ≤ 0x202e) || (0x2066 ≤ n && n ≤ 0x2069)

def clean (text : String) : String := String.ofList (text.toList.filter fun char => !bad char)

/-- `trim().is_empty()`. -/
def isBlank (text : String) : Bool := text.toList.all Policyd.isWhitespace

end Sanitize

/-! ## Messages -/

inductive MessageKind where
  | say
  | ask
  | human
  | context
  deriving DecidableEq

def MessageKind.asStr : MessageKind → String
  | say => "say"
  | ask => "ask"
  | human => "human"
  | context => "context"

structure Message where
  msgId : Nat
  timeMs : Nat
  kind : MessageKind
  text : String
  replyTo : Option UInt64
  /-- The lowest trust on the poster's chain, and the head source. -/
  minTrust : String
  head : String
  deriving DecidableEq

/-- A field an object has only when there is a value for it. -/
def withReply (value : Json) (replyTo : Option UInt64) : Json :=
  match replyTo with
  | some id => value.set "reply_to" (.ofNat id.toNat)
  | none => value

namespace Message

def trust (message : Message) : Json :=
  .object [("min_trust", .str message.minTrust), ("head", .str message.head)]

def toJson (message : Message) : Json :=
  withReply
    (.object
      [("schema", .str "conversation.v1"), ("msg_id", .ofNat message.msgId),
        ("time_ms", .ofNat message.timeMs), ("kind", .str message.kind.asStr),
        ("text", .str message.text), ("trust", message.trust)])
    message.replyTo

/-- `message_event`. -/
def event (task : String) (message : Message) : Json :=
  withReply
    (.object
      [("task_id", .str task), ("msg_id", .ofNat message.msgId),
        ("kind", .str message.kind.asStr), ("text", .str message.text),
        ("trust", message.trust), ("time_ms", .ofNat message.timeMs)])
    message.replyTo

end Message

/-! ## Tasks -/

structure Counters where
  messagesPosted : Nat
  bytesPosted : Nat
  humanPosts : Nat
  quotaExceeded : Nat
  deriving DecidableEq

/-- Which backend answers a task's inference calls. -/
inductive Backend where
  | api
  | claudeCode
  deriving DecidableEq

/-- A package manifest's `inference` block. -/
structure Inference where
  backend : Backend
  model : String
  deriving DecidableEq

structure Task where
  id : String
  principal : String
  package : String
  version : String
  statement : String
  deadlineMs : UInt64
  continuation : String
  /-- The account its inference runs under, empty for the default. -/
  account : String
  /-- The closed task whose session this one restores, or empty. -/
  resumes : String
  restoreTaken : Bool
  /-- `active`, `paused`, `draining` or `closed`. -/
  state : String
  reason : String
  awaitingReply : Bool
  startedMs : Nat
  closedMs : Option Nat
  minTrust : String
  /-- A drain was acknowledged: the agent's inbox reports closed. -/
  drainRequested : Bool
  counters : Counters
  inference : Option Inference
  msgs : List Message
  nextMsg : Nat
  /-- When the agent posted in the last minute, and how many bytes. -/
  window : List (Nat × Nat)
  deriving DecidableEq

namespace Task

def new (id : String) (now : Nat) : Task where
  id := id
  principal := ""
  package := ""
  version := ""
  statement := ""
  deadlineMs := 0
  continuation := ""
  account := ""
  resumes := ""
  restoreTaken := false
  state := "active"
  reason := ""
  awaitingReply := false
  startedMs := now
  closedMs := none
  minTrust := "standard"
  drainRequested := false
  counters := ⟨0, 0, 0, 0⟩
  inference := none
  msgs := []
  nextMsg := 1
  window := []

def isClosed (task : Task) : Bool := task.state = "closed"

/-- What the agent's inbox calls closed: closed, or a drain in progress. -/
def inboxClosed (task : Task) : Bool :=
  task.isClosed || task.state = "draining" || task.drainRequested

/-- `null` for a task that resumes none. -/
def resumesJson (task : Task) : Json := if task.resumes = "" then .null else .str task.resumes

def closedJson (task : Task) : Json := (task.closedMs.map Json.ofNat).getD .null

def toJson (task : Task) : Json :=
  .object
    [("task_id", .str task.id), ("package", .str task.package), ("version", .str task.version),
      ("statement", .str task.statement), ("state", .str task.state),
      ("reason", .str task.reason), ("deadline_ms", .ofNat task.deadlineMs.toNat),
      ("started_ms", .ofNat task.startedMs), ("closed_ms", task.closedJson),
      ("depth", .ofNat 0), ("continuation", .str task.continuation),
      ("resumes", task.resumesJson), ("awaiting_reply", .bool task.awaitingReply),
      ("pending_decisions", .ofNat 0), ("min_trust", .str task.minTrust),
      ("counters", .object
        [("messages_posted", .ofNat task.counters.messagesPosted),
          ("bytes_posted", .ofNat task.counters.bytesPosted),
          ("human_posts", .ofNat task.counters.humanPosts),
          ("quota_exceeded", .ofNat task.counters.quotaExceeded),
          ("messages", .ofNat task.msgs.length)])]

end Task

end EclipseOS.Agentd
