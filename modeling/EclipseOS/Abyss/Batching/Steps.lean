import EclipseOS.Abyss.Batching.Tokens
import EclipseOS.Foundation.Fallible

/-! # The steps of an atomic batch

A batch is decided step by step before any step runs. A step aimed at the seat's
focus is decided on the focus the steps before it should leave, and a batch token's
target is claimed by the first step that will consume it. Then the steps run. -/

namespace EclipseOS.Abyss.Batching

open Foundation PolicyEval

variable {ω : Type}

structure View (ω : Type) where
  resolve : UInt64 → Option ω
  hit : Int32 → Int32 → Option ω
  visible : ω → Bool

/-- What the compositor answers about one agent at one moment. -/
structure Scene (ω : Type) where
  /-- No policy key, or the agent is paused. -/
  paused : Bool
  /-- Whether the agent has an object. -/
  known : Bool
  /-- The task of the agent's first live grant. -/
  task : Option Ulid
  /-- The capabilities of its live grants, as far as they are listed. -/
  held : List String
  /-- What its live grants for a capability reach. -/
  actView : String → Option (View ω)
  decide : String → Bool → ω → Decision
  existingHandle : ω → Option UInt64
  generation : ω → UInt32
  alive : ω → Bool
  /-- Whether the window is in the space. -/
  placed : ω → Bool
  /-- The window the agent holds a compat lock on. -/
  compatLock : Option ω
  locked : Bool
  /-- In nanoseconds. -/
  now : Nat

structure AgentSeat (ω : Type) where
  /-- The window this seat's keyboard focus is on. -/
  focus : Option ω
  /-- The window this seat's pointer last landed on. -/
  pointerWindow : Option ω
  deriving DecidableEq

namespace Scene

/-- The window an agent's seat has focus on. A window that has since gone is no focus
at all, and one the agent holds a compat lock on comes first. -/
def focusedWindow (scene : Scene ω) : Option (AgentSeat ω) → Option ω
  | none => none
  | some seat =>
    (scene.compatLock.toList ++ seat.focus.toList ++ seat.pointerWindow.toList).find? scene.alive

/-- Steps 3 to 6, with `focus` standing for the seat's focus. -/
def resolveAt (scene : Scene ω) (req : Request) (focus : Option ω) : Except (Status × String) ω :=
  let cap := req.act.capability
  if scene.paused then
    .error (.paused, "")
  else
    match scene.actView cap with
    | none => .error (.noCapability, cap)
    | some view =>
      match req.act.aim with
      | .handle handle =>
        match view.resolve handle with
        | some window => .ok window
        | none => .error (.outOfScope, cap)
      | .point x y =>
        match view.hit x y with
        | some window => .ok window
        | none => .error (.outOfScope, cap)
      | .seatFocus =>
        match focus with
        | none => .error (.focusLost, "")
        | some window => if view.visible window then .ok window else .error (.outOfScope, cap)

/-- Step 4 for a capability judged on a window already resolved. -/
def inScope (scene : Scene ω) (cap : String) (window : ω) : Except (Status × String) Unit :=
  match scene.actView cap with
  | none => .error (.noCapability, cap)
  | some view => if view.visible window then .ok () else .error (.outOfScope, cap)

/-- Step 8: the generation the agent acted on is still the target's. -/
def current (scene : Scene ω) (req : Request) (window : ω) : Except (Status × String) Unit :=
  if req.expectedGeneration = 0 then
    .ok ()
  else if scene.generation window ≠ req.expectedGeneration then
    .error (.staleGeneration, toString (scene.generation window))
  else
    .ok ()

/-- The batch token's target an act on a window consumes. -/
def claim (scene : Scene ω) (req : Request) (window : ω) : UInt64 × UInt64 :=
  (req.batchToken, (scene.existingHandle window).getD 0)

/-- The table's answer for one capability, for the `i`th step. `claimed` are the
targets the steps before it will consume. -/
def dryDecide (scene : Scene ω) (batches : Batches) (i : Nat) (req : Request) (window : ω)
    (claimed : List (UInt64 × UInt64)) (cap : String) :
    Except (Status × String) (List (UInt64 × UInt64)) :=
  match scene.decide cap req.provenanceEmpty window with
  | ⟨.allow, _⟩ => .ok claimed
  | ⟨.deny, rule⟩ => .error (.policyDenied, rule)
  | ⟨.prompt, _⟩ =>
    if req.batchToken ≠ 0 ∧ cap = req.act.capability then
      let target := scene.claim req window
      if target ∈ claimed then
        .error (.batchExhausted, "")
      else
        match batches.covers req.agent scene.task target.1 target.2 with
        | .error status => .error (status, "")
        | .ok () => .ok (claimed ++ [target])
    else
      .error (.policyDenied, "needs_prompt:" ++ toString i)
  | ⟨.defer, _⟩ => .error (.policyDenied, "needs_defer:" ++ toString i)

def dryStep (scene : Scene ω) (batches : Batches) (i : Nat) (req : Request) (focus : Option ω)
    (claimed : List (UInt64 × UInt64)) :
    Except (Status × String) (ω × List (UInt64 × UInt64)) := do
  if ¬req.act.valid then
    throw (.invalidArgument, "")
  let window ← scene.resolveAt req focus
  scene.inScope "seat.atomic" window
  let claimed ← scene.dryDecide batches i req window claimed req.act.capability
  let claimed ← scene.dryDecide batches i req window claimed "seat.atomic"
  scene.current req window
  return (window, claimed)

end Scene

def leaves (act : Act) (window : ω) (focus : Option ω) : Option ω :=
  match act with
  | .focus _ | .click .. => some window
  | _ => focus

namespace Scene

/-- Every step from the `i`th on, in order, executing and consuming nothing. -/
def dryRunFrom (scene : Scene ω) (batches : Batches) :
    Nat → Option ω → List (UInt64 × UInt64) → List Request → Except (Nat × Status × String) Unit
  | _, _, _, [] => .ok ()
  | i, focus, claimed, req :: reqs =>
    match scene.dryStep batches i req focus claimed with
    | .error (status, detail) => .error (i, status, detail)
    | .ok (window, claimed) =>
      scene.dryRunFrom batches (i + 1) (leaves req.act window focus) claimed reqs

def dryRun (scene : Scene ω) (batches : Batches) (seat : Option (AgentSeat ω))
    (reqs : List Request) : Except (Nat × Status × String) Unit :=
  scene.dryRunFrom batches 0 (scene.focusedWindow seat) [] reqs

end Scene

/-! ## The compositor's own answers -/

section

variable [RegexEngine] {world : World} {req : Request}

/-- The scene an agent meets in a world, with what a world leaves out taken from
`rest`. -/
def Scene.of (rest : Scene Window) (world : World) (agent : UInt64) : Scene Window :=
  { rest with
    paused := ¬world.keyPinned ∨ world.paused agent
    known := (world.agents agent).isSome
    actView := fun cap =>
      match world.agents agent, world.actView agent cap with
      | some _, some view => some
          { resolve := fun handle =>
              world.windows.find? fun window => window.handle = handle ∧ view window
            hit := fun x y =>
              world.windows.find? fun window => world.covers window x y ∧ view window
            visible := view }
      | _, _ => none
    decide := world.decide agent
    generation := Window.generation }

theorem resolveAt_of (rest : Scene Window) :
    (rest.of world req.agent).resolveAt req (world.focusedWindow req.agent) = world.resolve req := by
  rw [Scene.resolveAt, World.resolve]
  dsimp only [Scene.of]
  simp only [decide_eq_true_eq]
  split
  · rfl
  · cases world.agents req.agent with
    | none => rfl
    | some agent =>
      cases world.actView req.agent req.act.capability with
      | none => rfl
      | some view =>
        dsimp only
        cases req.act.aim with
        | handle handle =>
          dsimp only
          cases world.windows.find? fun window => window.handle = handle ∧ view window with
          | none => rfl
          | some window => rfl
        | point x y =>
          dsimp only
          cases world.windows.find? fun window => world.covers window x y ∧ view window with
          | none => rfl
          | some window => rfl
        | seatFocus =>
          dsimp only
          cases world.focusedWindow req.agent with
          | none => rfl
          | some window => rfl

theorem current_of (rest : Scene Window) (window : Window) :
    (rest.of world req.agent).current req window = World.current req window := rfl

end

/-! ## What an accepted step promises -/

/-- What a batch answers for want of a token. -/
def RanOut (status : Status) : Prop := status = .batchExhausted ∨ status = .taskClosed

instance (status : Status) : Decidable (RanOut status) := inferInstanceAs (Decidable (_ ∨ _))

section

variable {scene : Scene ω} {batches : Batches} {i : Nat} {req : Request} {window : ω}
  {focus : Option ω} {claimed claimed' : List (UInt64 × UInt64)}

theorem resolveAt_error {status : Status} {detail : String}
    (refused : scene.resolveAt req focus = .error (status, detail)) :
    status ≠ .ok ∧ ¬RanOut status := by
  rw [Scene.resolveAt] at refused
  repeat' split at refused
  all_goals cases refused
  all_goals decide

theorem current_error {status : Status} {detail : String}
    (refused : scene.current req window = .error (status, detail)) :
    status ≠ .ok ∧ ¬RanOut status := by
  rw [Scene.current] at refused
  split at refused
  · cases refused
  · split at refused
    · cases refused
      decide
    · cases refused

/-- How the table lets a step through: it allows it, or a target no step before it
consumes stands in for the prompt. -/
inductive Clears (scene : Scene ω) (batches : Batches) (req : Request) (window : ω)
    (claimed : List (UInt64 × UInt64)) : List (UInt64 × UInt64) → Prop where
  | allowed
      (allows : (scene.decide req.act.capability req.provenanceEmpty window).outcome = .allow) :
      Clears scene batches req window claimed claimed
  | covered
      (prompts : (scene.decide req.act.capability req.provenanceEmpty window).outcome = .prompt)
      (presents : req.batchToken ≠ 0)
      (unclaimed : scene.claim req window ∉ claimed)
      (covers : batches.covers req.agent scene.task (scene.claim req window).1
        (scene.claim req window).2 = .ok ()) :
      Clears scene batches req window claimed (claimed ++ [scene.claim req window])

theorem clears_of_dryDecide
    (accepted : scene.dryDecide batches i req window claimed req.act.capability = .ok claimed') :
    Clears scene batches req window claimed claimed' := by
  rw [Scene.dryDecide] at accepted
  split at accepted
  · rename_i decided
    cases accepted
    exact .allowed (by rw [decided])
  · cases accepted
  · rename_i decided
    split at accepted
    · rename_i presents
      dsimp only at accepted
      split at accepted
      · cases accepted
      · rename_i unclaimed
        split at accepted
        · cases accepted
        · rename_i covers
          cases accepted
          exact .covered (by rw [decided]) presents.1 unclaimed covers
    · cases accepted
  · cases accepted

theorem claimed_of_dryDecide_atomic
    (accepted : scene.dryDecide batches i req window claimed "seat.atomic" = .ok claimed') :
    claimed' = claimed := by
  have apart : "seat.atomic" ≠ req.act.capability := by
    cases req.act <;> simp [Act.capability]
  rw [Scene.dryDecide] at accepted
  split at accepted
  · cases accepted
    rfl
  · cases accepted
  · rw [if_neg fun both => apart both.2] at accepted
    cases accepted
  · cases accepted

theorem dryStep_ok (accepted : scene.dryStep batches i req focus claimed = .ok (window, claimed')) :
    scene.resolveAt req focus = .ok window ∧ Clears scene batches req window claimed claimed' := by
  rw [Scene.dryStep] at accepted
  split at accepted
  · cases accepted
  · rcases ok_of_bind_ok accepted with ⟨target, resolved, accepted⟩
    rcases ok_of_bind_ok accepted with ⟨_, _, accepted⟩
    rcases ok_of_bind_ok accepted with ⟨own, decided, accepted⟩
    rcases ok_of_bind_ok accepted with ⟨both, atomic, accepted⟩
    rcases ok_of_bind_ok accepted with ⟨_, _, result⟩
    cases result
    have same := claimed_of_dryDecide_atomic atomic
    subst same
    exact ⟨resolved, clears_of_dryDecide decided⟩

end

/-! ## Running a step -/

inductive Fault where
  | focusLost
  | invalidArgument
  | outOfScope
  deriving DecidableEq

def Fault.status : Fault → Status
  | .focusLost => .focusLost
  | .invalidArgument => .invalidArgument
  | .outOfScope => .outOfScope

/-- What `consent::park` answers. -/
inductive Parking where
  | parked
  | rateLimited
  | duplicate
  deriving DecidableEq

structure Moment (ω : Type) where
  scene : Scene ω
  /-- Whether the audit socket took the request record. -/
  auditOpen : Bool
  /-- What became of the act at its client. -/
  done : Except (Fault × String) String
  /-- Whether the pointer had to be put back on its window first. -/
  synced : Bool
  parking : Parking

def landed (act : Act) (window : ω) (synced : Bool) (seat : AgentSeat ω) : AgentSeat ω :=
  match act with
  | .focus _ => { seat with focus := some window }
  | .click .. => ⟨some window, some window⟩
  | .pointerAbs .. | .pointerRel .. | .touchDown .. => { seat with pointerWindow := some window }
  | .button _ true | .axis .. => if synced then { seat with pointerWindow := some window } else seat
  | _ => seat

theorem landed_focus (act : Act) (window : ω) (synced : Bool) (seat : AgentSeat ω) :
    (landed act window synced seat).focus = leaves act window seat.focus := by
  cases act with
  | button button pressed => cases pressed <;> cases synced <;> rfl
  | axis => cases synced <;> rfl
  | _ => rfl

variable [DecidableEq ω]

/-- The seat after an act on a window. One on the window the agent holds a compat lock
on goes through the human seat. -/
def Scene.moved (scene : Scene ω) (act : Act) (window : ω) (synced : Bool) (seat : AgentSeat ω) :
    AgentSeat ω :=
  if scene.compatLock = some window then seat else landed act window synced seat

/-- Text goes only to the window the seat has keyboard focus on. -/
def Scene.takes (scene : Scene ω) (act : Act) (window : ω) (seat : AgentSeat ω) : Bool :=
  match act with
  | .text .. => scene.compatLock = some window ∨ seat.focus = some window
  | _ => true

structure Ran (ω : Type) where
  batches : Batches
  seat : Option (AgentSeat ω)
  /-- The tickets it used. -/
  spent : List Ticket
  submitted : Submitted

namespace Moment

def execute (moment : Moment ω) (seat : Option (AgentSeat ω)) (act : Act) (window : ω) :
    Option (AgentSeat ω) × Status × String :=
  match seat with
  | none => (none, .clientGone, "")
  | some seat =>
    if ¬moment.scene.alive window then
      (some seat, .focusLost, "")
    else if moment.scene.locked then
      (some seat, .focusLost, "locked")
    else if ¬moment.scene.takes act window seat then
      (some seat, .focusLost, "")
    else
      match moment.done with
      | .error (fault, detail) => (some seat, fault.status, detail)
      | .ok detail => (some (moment.scene.moved act window moment.synced seat), .ok, detail)

def perform (moment : Moment ω) (batches : Batches) (spent : List Ticket)
    (seat : Option (AgentSeat ω)) (req : Request) (window : ω) : Ran ω :=
  let done := moment.execute seat req.act window
  ⟨batches, done.1, spent, .answered done.2.1 done.2.2⟩

def submit (moment : Moment ω) (batches : Batches) (seat : Option (AgentSeat ω)) (req : Request) :
    Ran ω :=
  let scene := moment.scene
  let cap := req.act.capability
  let answered status detail : Ran ω := ⟨batches, seat, [], .answered status detail⟩
  if ¬req.act.valid then
    answered .invalidArgument ""
  else if ¬scene.known then
    answered .noCapability cap
  else if ¬moment.auditOpen then
    answered .paused ""
  else
    match scene.resolveAt req (scene.focusedWindow seat) with
    | .error (status, detail) => answered status detail
    | .ok window =>
      match scene.decide cap req.provenanceEmpty window, scene.current req window with
      | ⟨.deny, rule⟩, _ => answered .policyDenied rule
      | _, .error (status, detail) => answered status detail
      | ⟨.allow, _⟩, .ok () => moment.perform batches [] seat req window
      | ⟨.prompt, _⟩, .ok () =>
        if req.batchToken ≠ 0 then
          let handle := (scene.existingHandle window).getD 0
          match batches.consume req.agent scene.task req.batchToken handle with
          | .ok left =>
            let ticket := ⟨req.batchToken, req.agent, scene.task, (handle, 0)⟩
            moment.perform left [ticket] seat req window
          | .error status => answered status ""
        else
          match moment.parking with
          | .parked => ⟨batches, seat, [], .pending⟩
          | .rateLimited => answered .rateLimited ""
          | .duplicate => answered .duplicate ""
      | ⟨.defer, _⟩, .ok () => ⟨batches, seat, [], .pending⟩

end Moment

section

variable {moment : Moment ω} {batches : Batches} {spent : List Ticket}
  {seat : Option (AgentSeat ω)} {req : Request} {window : ω}

@[simp] theorem perform_batches :
    (moment.perform batches spent seat req window).batches = batches := rfl

@[simp] theorem perform_spent : (moment.perform batches spent seat req window).spent = spent := rfl

theorem Fault.status_ne (fault : Fault) : fault.status ≠ .ok ∧ ¬RanOut fault.status := by
  cases fault <;> decide

theorem execute_answers (moment : Moment ω) (seat : Option (AgentSeat ω)) (act : Act) (window : ω) :
    ¬RanOut (moment.execute seat act window).2.1 ∧
      ((moment.execute seat act window).2.1 = .ok → ∃ before, seat = some before ∧
        moment.scene.alive window ∧ (moment.execute seat act window).1 =
          some (moment.scene.moved act window moment.synced before)) := by
  cases seat with
  | none => exact ⟨by simp [RanOut, Moment.execute], nofun⟩
  | some before =>
    rw [Moment.execute]
    split
    · exact ⟨by simp [RanOut], nofun⟩
    · rename_i alive
      split
      · exact ⟨by simp [RanOut], nofun⟩
      · split
        · exact ⟨by simp [RanOut], nofun⟩
        · split
          · rename_i fault _ _
            exact ⟨fault.status_ne.2, fun ok => absurd ok fault.status_ne.1⟩
          · exact ⟨by simp [RanOut], fun _ => ⟨before, rfl, not_not.mp alive, rfl⟩⟩

inductive Runs (moment : Moment ω) (batches : Batches) (seat : Option (AgentSeat ω))
    (req : Request) : Ran ω → Prop where
  | refused (status : Status) (detail : String) (fails : status ≠ .ok) (kept : ¬RanOut status) :
      Runs moment batches seat req ⟨batches, seat, [], .answered status detail⟩
  | allowed (window : ω)
      (resolved : moment.scene.resolveAt req (moment.scene.focusedWindow seat) = .ok window) :
      Runs moment batches seat req (moment.perform batches [] seat req window)
  | covered (window : ω) (left : Batches)
      (resolved : moment.scene.resolveAt req (moment.scene.focusedWindow seat) = .ok window)
      (prompts : (moment.scene.decide req.act.capability req.provenanceEmpty window).outcome =
        .prompt)
      (consumed : batches.consume req.agent moment.scene.task (moment.scene.claim req window).1
        (moment.scene.claim req window).2 = .ok left) :
      Runs moment batches seat req (moment.perform left
        [⟨req.batchToken, req.agent, moment.scene.task, ((moment.scene.claim req window).2, 0)⟩]
        seat req window)
  | uncovered (window : ω) (status : Status)
      (resolved : moment.scene.resolveAt req (moment.scene.focusedWindow seat) = .ok window)
      (prompts : (moment.scene.decide req.act.capability req.provenanceEmpty window).outcome =
        .prompt)
      (refused : batches.consume req.agent moment.scene.task (moment.scene.claim req window).1
        (moment.scene.claim req window).2 = .error status) :
      Runs moment batches seat req ⟨batches, seat, [], .answered status ""⟩
  | late (window : ω) (submitted : Submitted)
      (resolved : moment.scene.resolveAt req (moment.scene.focusedWindow seat) = .ok window)
      (waits : (moment.scene.decide req.act.capability req.provenanceEmpty window).outcome =
        .prompt ∧ req.batchToken = 0 ∨
        (moment.scene.decide req.act.capability req.provenanceEmpty window).outcome = .defer) :
      Runs moment batches seat req ⟨batches, seat, [], submitted⟩

theorem runs_submit : Runs moment batches seat req (moment.submit batches seat req) := by
  rw [Moment.submit]
  dsimp only
  split
  · exact .refused _ _ (by decide) (by decide)
  · split
    · exact .refused _ _ (by decide) (by decide)
    · split
      · exact .refused _ _ (by decide) (by decide)
      · split
        · rename_i status detail resolved
          exact .refused status detail (resolveAt_error resolved).1 (resolveAt_error resolved).2
        · rename_i window resolved
          split
          · exact .refused _ _ (by decide) (by decide)
          · rename_i status detail old _
            exact .refused status detail (current_error old).1 (current_error old).2
          · exact .allowed window resolved
          · rename_i decided _
            split
            · split
              · rename_i left consumed
                exact .covered window left resolved (by rw [decided]) consumed
              · rename_i status refused
                exact .uncovered window status resolved (by rw [decided]) refused
            · rename_i tokenless
              have prompts := congrArg Decision.outcome decided
              split <;> exact .late window _ resolved (.inl ⟨prompts, not_not.mp tokenless⟩)
          · rename_i decided _
            exact .late window _ resolved (.inr (congrArg Decision.outcome decided))

end

end EclipseOS.Abyss.Batching
