import EclipseOS.PolicyEval.Check

/-! # The enforcement order for acting agent requests

A request is decided on arrival. One the table prompts or defers for waits, and
its answer is carried through later, when the compositor may have moved on. -/

namespace EclipseOS.Abyss

open PolicyEval

scoped instance lawfulBEqPair : LawfulBEq (UInt64 × UInt64) := inferInstance

inductive Status where
  | ok
  | invalidArgument
  | paused
  | noCapability
  | outOfScope
  | focusLost
  | policyDenied
  | staleGeneration
  | promptDenied
  | promptTimeout
  | deferredTimeout
  | classChanged
  | rateLimited
  | duplicate
  | batchExhausted
  | taskClosed
  | quotaExceeded
  | clientGone
  deriving DecidableEq

/-- The longest text one `text` request may carry. -/
def maxText : Nat := 4096

inductive Act where
  | focus (handle : UInt64)
  | key (keycode : UInt32) (pressed : Bool) (mods : UInt32)
  | keysym (keysym : UInt32) (pressed : Bool)
  | text (handle : UInt64) (text : String)
  | pointerAbs (x y : Int32)
  | pointerRel (dx dy : Float)
  | button (button : UInt32) (pressed : Bool)
  | axis (axis : UInt32) (value : Float) (discrete : Int32) (source : UInt32)
  | touchDown (id x y : Int32)
  | touchUp (id : Int32)
  | touchMotion (id x y : Int32)
  | click (handle : UInt64) (x y : Int32) (button : UInt32)

inductive Aim where
  | handle (handle : UInt64)
  | point (x y : Int32)
  | seatFocus
  deriving DecidableEq

namespace Act

def capability : Act → String
  | focus _ => "seat.focus"
  | key .. | keysym .. => "seat.key"
  | text .. => "seat.text"
  | pointerAbs .. | pointerRel .. | button .. | axis .. => "seat.pointer"
  | touchDown .. | touchUp _ | touchMotion .. => "seat.touch"
  | click .. => "click"

def aim : Act → Aim
  | focus handle => .handle handle
  | text handle _ => .handle handle
  | click handle x y _ => if handle = 0 then .point x y else .handle handle
  | pointerAbs x y => .point x y
  | touchDown _ x y => .point x y
  | touchMotion _ x y => .point x y
  | _ => .seatFocus

/-- Step 1. Text the compositor would never deliver is refused here. -/
def valid : Act → Bool
  | text _ value => value ≠ "" ∧ value.utf8ByteSize ≤ maxText
  | focus handle => handle ≠ 0
  | pointerRel dx dy => dx.isFinite ∧ dy.isFinite
  | axis _ value _ _ => value.isFinite
  | _ => true

end Act

structure Request where
  agent : UInt64
  reqId : UInt32
  act : Act
  provenanceEmpty : Bool
  batchToken : UInt64
  expectedGeneration : UInt32

/-- A window, as far as a decision can see it. -/
structure Window where
  handle : UInt64
  appId : String
  title : String
  «class» : PolicyEval.Class
  trust : Trust
  irreversibleCapable : Bool
  generation : UInt32
  deriving DecidableEq

structure AgentGrant where
  capabilities : List String
  unattended : Bool
  deriving DecidableEq

structure Agent where
  principal : String
  grants : List AgentGrant
  deriving DecidableEq

/-- The grant facts an `unless` clause may test. Facts past the thirty-second are
dropped. -/
def Agent.grantFacts (agent : Agent) : List GrantFact :=
  (agent.grants.flatMap fun grant =>
    grant.capabilities.map fun name => ⟨name, grant.unattended⟩).take 32

inductive ToPolicyd where
  | defer (req : UInt64) (principal capability rule : String)
  | mint (req : UInt64) (principal scope : String) (unattended : Bool)
  deriving DecidableEq

structure Mint where
  scope : String
  unattended : Bool
  deriving DecidableEq

inductive Verdict where
  | proceed (mint : Option Mint)
  | denied
  | deniedAndPause
  | timedOut
  | withdrawn
  deriving DecidableEq

structure Resolved where
  agent : UInt64
  req : UInt64
  verdict : Verdict
  deriving DecidableEq

/-- What the rest of the compositor answers at one moment. -/
structure World [RegexEngine] where
  table : Option Table
  keyPinned : Bool
  paused : UInt64 → Bool
  agents : UInt64 → Option Agent
  /-- The windows an agent's live grants for a capability reach. -/
  actView : UInt64 → String → Option (Window → Bool)
  /-- The mapped windows, topmost first. -/
  windows : List Window
  covers : Window → Int32 → Int32 → Bool
  focusedWindow : UInt64 → Option Window
  /-- Whether the audit socket took the request record. -/
  auditOpen : Bool
  /-- Step 9's answer. -/
  execute : UInt64 → Act → Window → Except (Status × String) String
  /-- `batch::consume`, for an agent, a token and a target. -/
  consume : UInt64 → UInt64 → UInt64 → Except Status Unit
  timerFails : Bool

structure Executed where
  request : Request
  window : Window

structure Reply where
  agent : UInt64
  reqId : UInt32
  status : Status
  detail : String
  deriving DecidableEq

/-- The enforcement state: the requests that wait, and what left it. -/
structure Compositor [RegexEngine] where
  world : World
  /-- With the target's class when the prompt went up. -/
  prompts : List (UInt64 × Request × PolicyEval.Class)
  defers : List (UInt64 × Request × String)
  parked : List (UInt64 × UInt64)
  sent : List ToPolicyd
  acts : List Executed
  replies : List Reply

/-- What `submit` did with a request. -/
inductive Submitted where
  | answered (status : Status) (detail : String)
  | pending
  deriving DecidableEq

def maxPerAgent : Nat := 8

/-- Unique per agent and request for this session. -/
def key (agent : UInt64) (reqId : UInt32) : UInt64 := agent <<< 32 ||| reqId.toUInt64

variable [RegexEngine]

namespace World

/-- Steps 3 to 6: whether the agent may act on anything now, and on what. -/
def resolve (world : World) (req : Request) : Except (Status × String) Window :=
  let cap := req.act.capability
  if ¬world.keyPinned ∨ world.paused req.agent then
    .error (.paused, "")
  else
    match world.agents req.agent, world.actView req.agent cap with
    | none, _ | some _, none => .error (.noCapability, cap)
    | some _, some view =>
      match req.act.aim with
      | .handle handle =>
        match world.windows.find? fun window => window.handle = handle ∧ view window with
        | some window => .ok window
        | none => .error (.outOfScope, cap)
      | .point x y =>
        match world.windows.find? fun window => world.covers window x y ∧ view window with
        | some window => .ok window
        | none => .error (.outOfScope, cap)
      | .seatFocus =>
        match world.focusedWindow req.agent with
        | none => .error (.focusLost, "")
        | some window => if view window then .ok window else .error (.outOfScope, cap)

/-- Step 8: the generation the agent acted on is still the target's. -/
def current (req : Request) (window : Window) : Except (Status × String) Unit :=
  if req.expectedGeneration = 0 then
    .ok ()
  else if window.generation ≠ req.expectedGeneration then
    .error (.staleGeneration, toString window.generation)
  else
    .ok ()

def revalidate (world : World) (req : Request) : Except (Status × String) Window := do
  let window ← world.resolve req
  current req window
  return window

/-- The facts a decision about `window` is made on. -/
def context (agent : Agent) (cap : String) (provenanceEmpty : Bool) (window : Window) :
    RequestCtx where
  principal := agent.principal
  profile := ""
  grants := agent.grantFacts
  capability := cap
  appId := if window.appId = "" then none else some window.appId
  title := if window.title = "" then none else some window.title
  «class» := window.class
  appTrust := window.trust
  appIrreversibleCapable := window.irreversibleCapable
  node := none
  url := none
  irreversible := none
  provenance := ⟨provenanceEmpty, fun _ => false, []⟩

def decide (world : World) (agent : UInt64) (cap : String) (provenanceEmpty : Bool)
    (window : Window) : Decision :=
  match world.agents agent, world.table with
  | some agent, some table => check table (context agent cap provenanceEmpty window)
  | _, _ => ⟨.deny, noMatch⟩

/-- The allow phase alone, as `afterDefer` defines fallthrough. -/
def allowPhase (world : World) (req : Request) (window : Window) : Option String :=
  match world.agents req.agent, world.table with
  | some agent, some table =>
    let decision := afterDefer table
      (context agent req.act.capability req.provenanceEmpty window) "" (some .fallthrough)
    if decision.outcome = .allow then some decision.rule else none
  | _, _ => none

def decideAfterDefer (world : World) (req : Request) (window : Window) (rule : String) :
    DeferAnswer → Decision
  | .deny => ⟨.deny, rule⟩
  | .prompt => ⟨.prompt, rule⟩
  -- The static allow phase only.
  | .fallthrough =>
    match world.allowPhase req window with
    | some rule => ⟨.allow, rule⟩
    | none => ⟨.deny, noMatch⟩

/-- The decision on a deferral's answer. `none` is the timeout. -/
def deferOutcome (world : World) (req : Request) (window : Window) (rule : String)
    (answer : Option DeferAnswer) : Decision :=
  match answer, world.table with
  | none, _ | some _, none => ⟨.deny, deferredTimeout⟩
  | some answer, some _ => world.decideAfterDefer req window rule answer

end World

namespace Compositor

def execute (state : Compositor) (req : Request) (window : Window) :
    Compositor × Status × String :=
  let state : Compositor := { state with acts := state.acts ++ [⟨req, window⟩] }
  match state.world.execute req.agent req.act window with
  | .ok detail => (state, .ok, detail)
  | .error (status, detail) => (state, status, detail)

def reply (state : Compositor) (req : Request) (status : Status) (detail : String) :
    Compositor :=
  { state with replies := state.replies ++ [⟨req.agent, req.reqId, status, detail⟩] }

def executeAndReply (state : Compositor) (req : Request) (window : Window) : Compositor :=
  let (state, status, detail) := state.execute req window
  state.reply req status detail

/-- Puts a request behind a consent prompt, or says why not. -/
def park (state : Compositor) (req : Request) (window : Window) :
    Compositor × Submitted :=
  let entry := (req.agent, req.reqId.toUInt64)
  if entry ∈ state.parked then
    (state, .answered .duplicate "")
  else if maxPerAgent ≤ state.parked.countP (·.1 = req.agent) then
    (state, .answered .rateLimited "")
  else
    ({ state with
        parked := state.parked ++ [entry]
        prompts := state.prompts ++ [(key req.agent req.reqId, req, window.class)] },
      .pending)

/-- Does what a late decision says and delivers its answer. -/
def settle (state : Compositor) (req : Request) (window : Window) (decision : Decision) :
    Compositor :=
  match decision.outcome with
  | .allow => state.executeAndReply req window
  | .prompt =>
    match state.park req window with
    | (state, .answered status detail) => state.reply req status detail
    | (state, .pending) => state
  | .deny | .defer =>
    if decision.rule = deferredTimeout then
      state.reply req .deferredTimeout ""
    else
      state.reply req .policyDenied decision.rule

/-- `policyd` answered deferral `k`, or the timeout did, with `none`. -/
def resolveDefer (state : Compositor) (k : UInt64) (answer : Option DeferAnswer) :
    Compositor :=
  match state.defers.find? fun entry => entry.1 = k with
  | none => state
  | some (_, req, rule) =>
    let state : Compositor := { state with defers := state.defers.eraseP fun entry => entry.1 = k }
    match state.world.agents req.agent with
    | none => state
    | some _ =>
      -- The world may have moved while policyd thought.
      match state.world.revalidate req with
      | .error (status, detail) => state.reply req status detail
      | .ok window =>
        state.settle req window (state.world.deferOutcome req window rule answer)

/-- Asks `policyd`. -/
def defer (state : Compositor) (principal : String) (req : Request) (rule : String) :
    Compositor :=
  let k := key req.agent req.reqId
  let state : Compositor := { state with
    sent := state.sent ++ [.defer k principal req.act.capability rule]
    defers := state.defers ++ [(k, req, rule)] }
  -- No timer means no bounded wait: answer now, closed.
  if state.world.timerFails then state.resolveDefer k none else state

def submit (state : Compositor) (req : Request) : Compositor × Submitted :=
  let cap := req.act.capability
  if ¬req.act.valid then
    (state, .answered .invalidArgument "")
  else
    match state.world.agents req.agent with
    | none => (state, .answered .noCapability cap)
    | some agent =>
      if ¬state.world.auditOpen then
        (state, .answered .paused "")
      else
        match state.world.resolve req with
        | .error (status, detail) => (state, .answered status detail)
        | .ok window =>
          let decision := state.world.decide req.agent cap req.provenanceEmpty window
          match decision.outcome, World.current req window with
          | .deny, _ => (state, .answered .policyDenied decision.rule)
          | _, .error (status, detail) => (state, .answered status detail)
          | .allow, .ok () =>
            let (state, status, detail) := state.execute req window
            (state, .answered status detail)
          | .prompt, .ok () =>
            if req.batchToken ≠ 0 then
              match state.world.consume req.agent req.batchToken window.handle with
              | .ok () =>
                let (state, status, detail) := state.execute req window
                (state, .answered status detail)
              | .error status => (state, .answered status "")
            else
              state.park req window
          | .defer, .ok () =>
            (state.defer agent.principal req decision.rule, .pending)

def drain (state : Compositor) (resolved : Resolved) : Compositor :=
  if 2 ^ 32 ≤ resolved.req.toNat then
    state
  else
    let k := key resolved.agent resolved.req.toUInt32
    match state.prompts.find? fun entry => entry.1 = k with
    | none => state
    | some (_, req, askedClass) =>
      let state : Compositor := { state with prompts := state.prompts.eraseP fun entry => entry.1 = k }
      match resolved.verdict with
      | .proceed mint =>
        match state.world.agents req.agent with
        | none => state
        | some agent =>
          match state.world.revalidate req with
          | .error (status, detail) => state.reply req status detail
          | .ok window =>
            -- The approval is not for a window whose class has risen.
            if askedClass.rank < window.class.rank then
              state.reply req .classChanged ""
            else
              let minted := mint.map fun mint =>
                ToPolicyd.mint k agent.principal mint.scope mint.unattended
              let state : Compositor := { state with sent := state.sent ++ minted.toList }
              state.executeAndReply req window
      | .denied => state.reply req .promptDenied ""
      | .deniedAndPause =>
        let paused := fun agent => agent == req.agent || state.world.paused agent
        let world : World := { state.world with paused }
        { state with world }.reply req .promptDenied ""
      | .timedOut => state.reply req .promptTimeout ""
      | .withdrawn => state

end Compositor

end EclipseOS.Abyss
