import EclipseOS.Foundation.Table
import EclipseOS.Inferenced.Session

/-! # The tool shim

A model process calls the agent's tools through the shim, which tells the router's hub of each
call and blocks it until the hub sends the result. The hub matches calls with results in
whichever order they come. -/

namespace EclipseOS.Inferenced.Shim

open Foundation

/-! ## Frames -/

def MAX_FRAME : Nat := 8 * 1024 * 1024

def frameFits (frame : Json) : Bool := frame.text.utf8ByteSize ≤ MAX_FRAME

def callFrame (tuid : String) (params : Json) : Json :=
  .object [("call", .object [("id", .str tuid),
    ("name", .str ((strField params "name").getD "")),
    ("input", (params.get "arguments").getD .null)])]

def resultFrame (id : String) (r : ToolResult) : Json :=
  .object [("result", .object [("id", .str id), ("text", .str r.text),
    ("is_error", .bool r.isError)])]

def callId (frame : Json) : Option String := (frame.get "call").bind (strField · "id")

def resultOf (frame : Json) : Option (String × ToolResult) := do
  let r ← frame.get "result"
  let id ← strField r "id"
  some (id, ⟨(strField r "text").getD "", isTrue r "is_error"⟩)

/-! ## The two sides -/

def closedSession : ToolResult := ⟨"the router closed the session", true⟩

def noToolUseId : ToolResult := ⟨"the tool call carried no tool use id", true⟩

def toolReply (id : Json) (r : ToolResult) : Json :=
  .object [("jsonrpc", .str "2.0"), ("id", id),
    ("result", .object [("content", .array [textBlock r.text]), ("isError", .bool r.isError)])]

/-- The id of the `tool_use` block a call is for. -/
def toolUseId (params : Json) : Option String :=
  (params.get "_meta").bind (strField · "claudecode/toolUseId")

inductive Place where
  | started
  /-- Its sender is in the table. -/
  | registered
  /-- Its frame could not be written. -/
  | unsent
  | waiting
  | done
  /-- The thread did not start. -/
  | lost
  deriving DecidableEq

structure Call where
  id : Json
  params : Json
  place : Place
  /-- What was sent to the call's own channel. -/
  mail : Option ToolResult
  replies : List Json
  deriving DecidableEq

def Call.tuid (call : Call) : Option String := toolUseId call.params

def Call.answered (call : Call) (r : ToolResult) : Call :=
  { call with place := .done, replies := call.replies ++ [toolReply call.id r] }

/-- The calls that wait for a result, with the thread that holds the other end of the channel. -/
@[ext]
structure Pending where
  closed : Bool
  map : Table String Nat

@[ext]
structure Hub where
  /-- Ids that were asked about and nobody has answered yet. -/
  called : Finset String
  /-- Results that arrived before the call for them. -/
  early : Table String ToolResult

/-- How far the router's thread for the connection is; the hub has a writer while it reads. -/
inductive Accept where
  | attaching
  | reading
  | detached
  deriving DecidableEq

/-- Both sides, the frames between them, and what was heard, sent and delivered so far. -/
@[ext]
structure State where
  calls : List Call
  pending : Pending
  up : List Json
  down : List Json
  cut : Bool
  accept : Accept
  hub : Hub
  heard : List String
  sent : List (String × ToolResult)
  delivered : List (String × ToolResult)

def State.start : State where
  calls := []
  pending := ⟨false, ∅⟩
  up := []
  down := []
  cut := false
  accept := .attaching
  hub := ⟨∅, ∅⟩
  heard := []
  sent := []
  delivered := []

inductive Event where
  /-- A `tools/call`, whose thread is started or not. -/
  | request (id params : Json) (spawns : Bool)
  /-- The thread of a call goes on. -/
  | thread (n : Nat)
  | attach
  | readCall
  | detach
  | deliver (id : String) (r : ToolResult)
  | receive
  /-- The receiver is at the end of the stream. -/
  | endReceive
  | cut
  deriving DecidableEq

namespace State

/-! ## The router -/

/-- Write a result to the connection; an error is ignored. -/
def send (s : State) (id : String) (r : ToolResult) : State :=
  if s.accept = .reading ∧ s.cut = false ∧ frameFits (resultFrame id r) then
    { s with down := s.down ++ [resultFrame id r], sent := s.sent ++ [(id, r)] }
  else s

/-- The shim announced a call: answer it now if the result is already here. -/
def onCall (s : State) (id : String) : State :=
  match s.hub.early.lookup id with
  | some r => { s with hub := { s.hub with early := s.hub.early.erase id } }.send id r
  | none => { s with hub := { s.hub with called := insert id s.hub.called } }

/-- The agent's result: forward it to the waiting call, or keep it until the call arrives. -/
def deliver (s : State) (id : String) (r : ToolResult) : State :=
  if id ∈ s.hub.called then
    { s with hub := { s.hub with called := s.hub.called.erase id } }.send id r
  else { s with hub := { s.hub with early := s.hub.early.insert id r } }

def readCall (s : State) : State :=
  match s.accept, s.up with
  | .reading, frame :: rest =>
    match callId frame with
    | some id => { s with up := rest, heard := s.heard ++ [id] }.onCall id
    | none => { s with up := rest }
  | _, _ => s

/-! ## The shim -/

def setCall (s : State) (n : Nat) (call : Call) : State := { s with calls := s.calls.set n call }

def post (calls : List Call) (n : Nat) (r : ToolResult) : List Call :=
  calls.modify n fun call => { call with mail := some r }

def receive (s : State) : State :=
  match s.pending.closed, s.down with
  | false, frame :: rest =>
    match resultOf frame with
    | some (id, r) =>
      match s.pending.map.lookup id with
      | some n =>
        { s with
            down := rest
            pending := { s.pending with map := s.pending.map.erase id }
            calls := post s.calls n r }
      | none => { s with down := rest }
    | none => { s with down := rest }
  | _, _ => s

/-- The connection is over: every blocked call is failed. -/
def endReceive (s : State) : State :=
  if s.pending.closed = false ∧ s.cut ∧ s.down = [] then
    { s with
        pending := ⟨true, ∅⟩
        calls := s.pending.map.entries.foldl
          (fun calls entry => post calls entry.2 closedSession) s.calls }
  else s

/-- One step of a call's thread. A waiting one goes on when something is in its channel, or when
the table no longer holds the other end. -/
def thread (s : State) (n : Nat) (call : Call) : State :=
  match call.place, call.tuid with
  | .started, none => s.setCall n (call.answered noToolUseId)
  | .started, some tuid =>
    if s.pending.closed then s.setCall n (call.answered closedSession)
    else { s with pending := { s.pending with map := s.pending.map.insert tuid n } }.setCall n
      { call with place := .registered }
  | .registered, some tuid =>
    if s.cut = false ∧ frameFits (callFrame tuid call.params) then
      { s with up := s.up ++ [callFrame tuid call.params] }.setCall n
        { call with place := .waiting }
    else s.setCall n { call with place := .unsent }
  | .unsent, some tuid =>
    { s with pending := { s.pending with map := s.pending.map.erase tuid } }.setCall n
      (call.answered closedSession)
  | .waiting, some tuid =>
    match call.mail with
    | some r => s.setCall n (call.answered r)
    | none =>
      if s.pending.map.lookup tuid = some n then s
      else s.setCall n (call.answered closedSession)
  | _, _ => s

def step (s : State) : Event → State
  | .request id params spawns =>
    { s with calls := s.calls ++ [⟨id, params, if spawns then .started else .lost, none, []⟩] }
  | .thread n =>
    match s.calls[n]? with
    | some call => s.thread n call
    | none => s
  | .attach => if s.accept = .attaching then { s with accept := .reading } else s
  | .readCall => s.readCall
  | .detach => if s.cut then { s with accept := .detached } else s
  | .deliver id r => { s with delivered := s.delivered ++ [(id, r)] }.deliver id r
  | .receive => s.receive
  | .endReceive => s.endReceive
  | .cut => { s with cut := true }

end State

/-- What happens without anything new from outside. -/
def Event.internal : Event → Bool
  | .thread _ | .attach | .readCall | .detach | .receive | .endReceive => true
  | .request .. | .deliver .. | .cut => false

def runFrom (s : State) (events : List Event) : State := events.foldl State.step s

def run (events : List Event) : State := runFrom .start events

end EclipseOS.Inferenced.Shim
