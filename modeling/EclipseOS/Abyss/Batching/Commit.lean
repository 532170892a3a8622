import EclipseOS.Abyss.Batching.Steps
import Mathlib.Logic.Function.Basic

/-! # Atomic batches

While a batch is open an agent's acts are queued, not run. A commit checks the whole
batch and decides every step of it before it runs the first: all of the steps, or
none. -/

namespace EclipseOS.Abyss.Batching

open Foundation PolicyEval

variable {ω : Type}

def defaultFrames : UInt32 := 4

def maxFrames : UInt32 := 60

def maxSteps : Nat := 256

def openTtl : Nat := 5000000000

/-- One queued request, and the window its handle named when it arrived, if it was
visible. -/
structure Queued (ω : Type) where
  req : Request
  window : Option ω

structure Batch (ω : Type) where
  maxFrames : UInt32
  opened : Nat
  /-- The agent seat's focus when the batch opened. -/
  focusAtBegin : Option ω
  queued : List (Queued ω)
  /-- Set when the batch was aborted while open: queued requests have already been
  answered. -/
  aborted : Option (Status × String)

inductive Fate where
  | replied (status : Status) (detail : String)
  /-- Parked behind a prompt or a deferral: it will answer by itself, later, alone. -/
  | waiting
  deriving DecidableEq

structure Settled where
  reqId : UInt32
  fate : Fate
  deriving DecidableEq

namespace Queued

def settled (fate : Fate) (q : Queued ω) : Settled := ⟨q.req.reqId, fate⟩

def reqId (q : Queued ω) : UInt32 := q.req.reqId

end Queued

def replyAll (queued : List (Queued ω)) (status : Status) (detail : String) : List Settled :=
  queued.map (Queued.settled (.replied status detail))

theorem reqIds_replyAll (queued : List (Queued ω)) (status : Status) (detail : String) :
    (replyAll queued status detail).map Settled.reqId = queued.map Queued.reqId := by
  rw [replyAll, List.map_map]
  rfl

namespace Scene

def mapped (scene : Scene ω) (window : ω) : Bool := scene.alive window && scene.placed window

/-- The window a handle names, if the agent's view for the capability reaches it. -/
def visibleWindow (scene : Scene ω) (cap : String) (handle : UInt64) : Option ω :=
  (scene.actView cap).bind fun view => view.resolve handle

def named (scene : Scene ω) (act : Act) : Option ω :=
  match act.aim with
  | .handle handle => if handle = 0 then none else scene.visibleWindow act.capability handle
  | _ => none

variable [DecidableEq ω]

/-- The seat's focus as the steps will leave it, as far as their handles tell. -/
def checkSteps (scene : Scene ω) : Option ω → List (Queued ω) → Except (Status × String) Unit
  | _, [] => .ok ()
  | focus, q :: rest =>
    let focus := q.window.elim focus fun window => leaves q.req.act window focus
    if q.window.any fun window => ¬scene.mapped window then
      .error (.focusLost, "")
    else if (q.req.act matches .text ..) ∧ q.window ≠ none ∧ focus ≠ q.window then
      .error (.focusLost, "")
    else if q.req.act.aim = .seatFocus ∧ ¬focus.any scene.mapped then
      .error (.focusLost, "")
    else
      match q.window.map (scene.current q.req) with
      | some (.error cause) => .error cause
      | _ => scene.checkSteps focus rest

def checkBatch (scene : Scene ω) (batch : Batch ω) : Except (Status × String) Unit :=
  if openTtl < scene.now - batch.opened then
    .error (.invalidArgument, "batch_timeout")
  else
    scene.checkSteps batch.focusAtBegin batch.queued

/-- Everything that can be known without running a step. -/
def check (scene : Scene ω) (batch : Batch ω) : Except (Status × String) Unit :=
  if scene.paused then .error (.paused, "") else scene.checkBatch batch

end Scene

structure Desk (ω : Type) where
  batches : Batches
  atomic : UInt64 → Option (Batch ω)
  seats : UInt64 → Option (AgentSeat ω)

namespace Desk

def setAtomic (desk : Desk ω) (agent : UInt64) (batch : Option (Batch ω)) : Desk ω :=
  { desk with atomic := Function.update desk.atomic agent batch }

/-- `begin_atomic`, and its answer. -/
def begin (desk : Desk ω) (scene : Scene ω) (agent : UInt64) (frames : UInt32) :
    Desk ω × Status × String :=
  if scene.paused then
    (desk, .paused, "")
  else if "seat.atomic" ∉ scene.held then
    (desk, .noCapability, "seat.atomic")
  else if maxFrames < frames then
    (desk, .invalidArgument, "max_frames")
  else
    match desk.atomic agent with
    | some _ => (desk, .invalidArgument, "nested")
    | none =>
      let batch : Batch ω :=
        { maxFrames := if frames = 0 then defaultFrames else frames
          opened := scene.now
          focusAtBegin := scene.focusedWindow (desk.seats agent)
          queued := []
          aborted := none }
      (desk.setAtomic agent (some batch), .ok, "")

/-- Answers every queued request and marks the batch aborted. -/
def abort (desk : Desk ω) (agent : UInt64) (batch : Batch ω) (status : Status) (detail : String) :
    Desk ω × List Settled :=
  (desk.setAtomic agent (some { batch with queued := [], aborted := some (status, detail) }),
    replyAll batch.queued status detail)

variable [DecidableEq ω]

def queue (desk : Desk ω) (scene : Scene ω) (req : Request) : Desk ω × List Settled :=
  match desk.atomic req.agent with
  | none => (desk, [])
  | some batch =>
    match batch.aborted with
    | some (status, detail) => (desk, [⟨req.reqId, .replied status detail⟩])
    | none =>
      let batch := { batch with queued := batch.queued ++ [⟨req, scene.named req.act⟩] }
      if maxSteps < batch.queued.length then
        desk.abort req.agent batch .quotaExceeded "batch"
      else
        match scene.check batch with
        | .error (status, detail) => desk.abort req.agent batch status detail
        | .ok () => (desk.setAtomic req.agent (some batch), [])

end Desk

/-- What the steps of a committed batch left. -/
structure Delivered (ω : Type) where
  batches : Batches
  seat : Option (AgentSeat ω)
  spent : List Ticket
  settled : List Settled
  /-- How many ran, and what stopped the rest. -/
  ran : Nat
  failure : Option (Status × String)

variable [DecidableEq ω]

/-- Runs the steps in order, the `ran`th and on, until one fails or has to wait. -/
def deliver (moments : Nat → Moment ω) :
    Nat → Batches → Option (AgentSeat ω) → List (Queued ω) → Delivered ω
  | ran, batches, seat, [] => ⟨batches, seat, [], [], ran, none⟩
  | ran, batches, seat, q :: rest =>
    let step := (moments ran).submit batches seat q.req
    match step.submitted with
    | .answered status detail =>
      let answered := q.settled (.replied status detail)
      if status = .ok then
        let after := deliver moments (ran + 1) step.batches step.seat rest
        { after with
          spent := step.spent ++ after.spent
          settled := answered :: after.settled }
      else
        -- The steps that never ran: the same cause, said so.
        ⟨step.batches, step.seat, step.spent, answered :: replyAll rest status "aborted",
          ran, some (status, detail)⟩
    | .pending =>
      ⟨step.batches, step.seat, step.spent,
        q.settled .waiting :: replyAll rest .invalidArgument "aborted",
        ran + 1, some (.invalidArgument, "batch_interrupted")⟩

namespace Delivered

/-- The commit's own answer, for `total` steps. -/
def answer (delivered : Delivered ω) (total : Nat) : Status × String :=
  match delivered.failure with
  | none => (.ok, toString total)
  | some (status, detail) =>
    if 0 < delivered.ran ∧ detail ≠ "batch_interrupted" then
      (status, "partial:" ++ toString delivered.ran)
    else
      (status, detail)

end Delivered

structure Committed (ω : Type) where
  desk : Desk ω
  settled : List Settled
  spent : List Ticket
  answer : Status × String

namespace Desk

/-- `commit_atomic`: all of the queued steps, or none. -/
def commit (desk : Desk ω) (scene : Scene ω) (moments : Nat → Moment ω) (agent : UInt64) :
    Committed ω :=
  let closed := desk.setAtomic agent none
  match desk.atomic agent with
  | none => ⟨desk, [], [], .invalidArgument, "no_batch"⟩
  | some batch =>
    match batch.aborted with
    | some cause => ⟨closed, [], [], cause⟩
    | none =>
      match scene.check batch with
      | .error (status, detail) =>
        ⟨closed, replyAll batch.queued status detail, [], status, detail⟩
      | .ok () =>
        let seat := desk.seats agent
        match scene.dryRun desk.batches seat (batch.queued.map (·.req)) with
        | .error (_, status, detail) =>
          ⟨closed, replyAll batch.queued status detail, [], status, detail⟩
        | .ok () =>
          let delivered := deliver moments 0 desk.batches seat batch.queued
          ⟨{ closed with
              batches := delivered.batches
              seats := Function.update desk.seats agent delivered.seat },
            delivered.settled, delivered.spent,
            delivered.answer batch.queued.length⟩

/-- `abort_atomic`: nothing queued runs. -/
def abortByAgent (desk : Desk ω) (agent : UInt64) : Desk ω × List Settled × Status × String :=
  match desk.atomic agent with
  | none => (desk, [], .invalidArgument, "no_batch")
  | some batch =>
    (desk.setAtomic agent none, replyAll batch.queued .invalidArgument "aborted", .ok, "")

end Desk

end EclipseOS.Abyss.Batching

/-! ## What an accepted batch does

The dry run counts targets on a list of its own, and it follows the focus only
through the acts that set it. The steps run on the tokens themselves, and on the seat
as it is. -/

namespace EclipseOS.Abyss.Batching

open Foundation PolicyEval

variable {ω : Type}

/-- Two moments in which an act is judged alike: nothing was granted, revoked or expired
between them, no window came or went, and the same compat lock is held. -/
structure Unchanged (scene other : Scene ω) : Prop where
  task : other.task = scene.task
  actView : other.actView = scene.actView
  decide : other.decide = scene.decide
  existingHandle : other.existingHandle = scene.existingHandle
  alive : other.alive = scene.alive
  compatLock : other.compatLock = scene.compatLock

section

variable {scene other : Scene ω} {req : Request} {focus : Option ω} {window : ω}

theorem resolveAt_paused (resolved : scene.resolveAt req focus = .ok window) :
    scene.paused = false := by
  rw [Scene.resolveAt] at resolved
  split at resolved
  · cases resolved
  · rename_i unpaused
    exact eq_false_of_ne_true unpaused

theorem resolveAt_congr {focus' : Option ω} (same : req.act.aim = .seatFocus → focus' = focus) :
    scene.resolveAt req focus' = scene.resolveAt req focus := by
  rw [Scene.resolveAt, Scene.resolveAt]
  cases isAim : req.act.aim with
  | seatFocus => rw [same isAim]
  | handle handle => rfl
  | point x y => rfl

namespace Unchanged

variable (unchanged : Unchanged scene other)

include unchanged

theorem focusedWindow (seat : Option (AgentSeat ω)) :
    other.focusedWindow seat = scene.focusedWindow seat := by
  cases seat with
  | none => rfl
  | some seat =>
    rw [Scene.focusedWindow, Scene.focusedWindow, unchanged.compatLock, unchanged.alive]

theorem resolveAt (unpaused : scene.paused = false)
    (resolved : other.resolveAt req focus = .ok window) :
    scene.resolveAt req focus = .ok window := by
  rw [Scene.resolveAt, resolveAt_paused resolved, unchanged.actView] at resolved
  rw [Scene.resolveAt, unpaused]
  exact resolved

theorem claim : other.claim req window = scene.claim req window := by
  rw [Scene.claim, Scene.claim, unchanged.existingHandle]

end Unchanged

end

/-- Every target no step has claimed is still covered. -/
def Ready (scene : Scene ω) (agent : UInt64) (held batches : Batches)
    (claimed : List (UInt64 × UInt64)) : Prop :=
  ∀ target ∉ claimed, held.covers agent scene.task target.1 target.2 = .ok () →
    batches.covers agent scene.task target.1 target.2 = .ok ()

variable {scene : Scene ω} {moment : Moment ω} {held batches : Batches} {i : Nat}
  {seat : Option (AgentSeat ω)} {req : Request} {focus : Option ω} {window : ω}
  {claimed claimed' : List (UInt64 × UInt64)}

theorem Ready.mono (ready : Ready scene req.agent held batches claimed)
    (clears : Clears scene held req window claimed claimed') :
    Ready scene req.agent held batches claimed' := by
  intro target unclaimed
  apply ready
  cases clears with
  | allowed => exact unclaimed
  | covered => exact fun earlier => unclaimed (List.mem_append_left _ earlier)

variable [DecidableEq ω]

/-- A step the dry run let through is answered, and wants no token that is not there. -/
structure Answered (scene : Scene ω) (moment : Moment ω) (held : Batches)
    (seat : Option (AgentSeat ω)) (req : Request) (window : ω)
    (claimed : List (UInt64 × UInt64)) (ran : Ran ω) (status : Status) (detail : String) :
    Prop where
  answer : ran.submitted = .answered status detail
  kept : ¬RanOut status
  ready : Ready scene req.agent held ran.batches claimed
  moved : status = .ok → scene.alive window ∧
    ran.seat = seat.map (scene.moved req.act window moment.synced)

theorem answered_perform {spent : List Ticket} (unchanged : Unchanged scene moment.scene)
    (ready : Ready scene req.agent held batches claimed') :
    ∃ status detail, Answered scene moment held seat req window claimed'
      (moment.perform batches spent seat req window) status detail := by
  have ⟨kept, moves⟩ := execute_answers moment seat req.act window
  refine ⟨_, _, rfl, kept, ready, ?_⟩
  intro isOk
  rcases moves isOk with ⟨before, rfl, alive, result⟩
  rw [unchanged.alive] at alive
  rw [Scene.moved, unchanged.compatLock] at result
  exact ⟨alive, result⟩

theorem answered_submit (unchanged : Unchanged scene moment.scene)
    (accepted : scene.dryStep held i req focus claimed = .ok (window, claimed'))
    (follows : req.act.aim = .seatFocus → scene.focusedWindow seat = focus)
    (ready : Ready scene req.agent held batches claimed) :
    ∃ status detail, Answered scene moment held seat req window claimed'
      (moment.submit batches seat req) status detail := by
  have ⟨resolved, clears⟩ := dryStep_ok accepted
  have unpaused := resolveAt_paused resolved
  have sameTarget : ∀ target,
      moment.scene.resolveAt req (moment.scene.focusedWindow seat) = .ok target →
        target = window := by
    intro target found
    rw [unchanged.focusedWindow] at found
    have found := unchanged.resolveAt unpaused found
    rw [resolveAt_congr follows, resolved] at found
    exact (Except.ok.inj found).symm
  generalize isRan : moment.submit batches seat req = ran
  have runs : Runs moment batches seat req ran := isRan ▸ runs_submit
  cases runs with
  | refused status detail fails kept =>
    exact ⟨status, detail, rfl, kept, ready.mono clears, fun isOk => absurd isOk fails⟩
  | allowed target found =>
    rw [sameTarget target found]
    exact answered_perform unchanged (ready.mono clears)
  | covered target left found prompts consumed =>
    have same := sameTarget target found
    subst same
    rw [unchanged.claim, unchanged.task] at consumed
    rw [unchanged.decide] at prompts
    apply answered_perform unchanged
    cases clears with
    | allowed allows => rw [allows] at prompts; cases prompts
    | covered _ _ unclaimed covers =>
      intro other unclaimed' heldCovers
      have apart : other ≠ scene.claim req target := by
        intro same
        exact unclaimed' (by simp [same])
      have earlier : other ∉ claimed := by
        intro earlier
        exact unclaimed' (List.mem_append_left _ earlier)
      exact covers_of_consume consumed apart (ready other earlier heldCovers)
  | uncovered target status found prompts refused =>
    have same := sameTarget target found
    subst same
    rw [unchanged.claim, unchanged.task] at refused
    rw [unchanged.decide] at prompts
    cases clears with
    | allowed allows => rw [allows] at prompts; cases prompts
    | covered _ _ unclaimed covers =>
      rcases consume_of_covers (ready _ unclaimed covers) with ⟨left, consumed⟩
      rw [consumed] at refused
      cases refused
  | late target submitted found waits =>
    have same := sameTarget target found
    subst same
    rw [unchanged.decide] at waits
    cases clears with
    | allowed allows =>
      rcases waits with ⟨prompts, _⟩ | defers
      · rw [allows] at prompts; cases prompts
      · rw [allows] at defers; cases defers
    | covered prompts presents =>
      rcases waits with ⟨_, tokenless⟩ | defers
      · exact absurd tokenless presents
      · rw [prompts] at defers; cases defers

/-- Each step aimed at the seat's focus finds it where the dry run supposes: on the
window of the last step that set it, or where it was. -/
def Follows (scene : Scene ω) : Option (AgentSeat ω) → Option ω → List Request → Prop
  | _, _, [] => True
  | seat, focus, req :: reqs =>
    (req.act.aim = .seatFocus → scene.focusedWindow seat = focus) ∧
      ∀ window synced, scene.resolveAt req focus = .ok window → scene.alive window →
        Follows scene (seat.map (scene.moved req.act window synced))
          (leaves req.act window focus) reqs

/-- A seat with a keyboard focus of its own follows every batch, unless a compat lock
takes its acts elsewhere. -/
theorem follows_of_keyboard {seat : AgentSeat ω} (unlocked : scene.compatLock = none)
    (focused : seat.focus = some window) (alive : scene.alive window) (reqs : List Request) :
    Follows scene (some seat) (some window) reqs := by
  induction reqs generalizing seat window with
  | nil => trivial
  | cons req reqs induction =>
    constructor
    · intro _
      simp [Scene.focusedWindow, unlocked, focused, alive]
    · intro target synced _ targetAlive
      rw [Option.map_some, Scene.moved, unlocked, if_neg (by simp)]
      have stays := landed_focus req.act target synced seat
      rw [focused] at stays
      have focuses : leaves req.act target (some window) = some target ∨
          leaves req.act target (some window) = some window := by
        cases req.act <;> simp [leaves]
      rcases focuses with onTarget | onWindow
      · rw [onTarget] at stays ⊢
        exact induction stays targetAlive
      · rw [onWindow] at stays ⊢
        exact induction stays alive

section

variable {moments : Nat → Moment ω} {ran : Nat} {queued : List (Queued ω)}

theorem tickets_submit (moment : Moment ω) (batches : Batches) (seat : Option (AgentSeat ω))
    (req : Request) :
    ((moment.submit batches seat req).spent ++
      (moment.submit batches seat req).batches.tickets).Perm batches.tickets := by
  generalize isRan : moment.submit batches seat req = ran
  have runs : Runs moment batches seat req ran := isRan ▸ runs_submit
  cases runs with
  | refused | allowed | uncovered | late => exact .refl _
  | covered target left _ _ consumed => exact (tickets_consume consumed).symm

theorem tickets_deliver :
    ((deliver moments ran batches seat queued).spent ++
      (deliver moments ran batches seat queued).batches.tickets).Perm batches.tickets := by
  induction queued generalizing ran batches seat with
  | nil => exact .refl _
  | cons q rest induction =>
    have taken := tickets_submit (moments ran) batches seat q.req
    rw [deliver]
    dsimp only
    split
    · split
      · rw [List.append_assoc]
        exact (induction.append_left _).trans taken
      · exact taken
    · exact taken

theorem reqIds_deliver :
    (deliver moments ran batches seat queued).settled.map Settled.reqId =
      queued.map Queued.reqId := by
  induction queued generalizing ran batches seat with
  | nil => rfl
  | cons q rest induction =>
    rw [deliver]
    dsimp only
    split
    · split
      · rw [List.map_cons, induction]
        rfl
      · rw [List.map_cons, reqIds_replyAll]
        rfl
    · rw [List.map_cons, reqIds_replyAll]
      rfl

end

theorem deliver_settled {moments : Nat → Moment ω} {agent : UInt64}
    {queued : List (Queued ω)} (ran : Nat) (batches : Batches)
    (unchanged : ∀ i, Unchanged scene (moments i).scene)
    (own : ∀ q ∈ queued, q.req.agent = agent)
    (accepted : scene.dryRunFrom held i focus claimed (queued.map (·.req)) = .ok ())
    (follows : Follows scene seat focus (queued.map (·.req)))
    (ready : Ready scene agent held batches claimed) :
    ∀ settled ∈ (deliver moments ran batches seat queued).settled,
      ∃ status detail, settled.fate = .replied status detail ∧ ¬RanOut status := by
  induction queued generalizing ran batches seat i focus claimed with
  | nil => exact nofun
  | cons q rest induction =>
    rw [List.map_cons, Follows] at follows
    rw [List.map_cons, Scene.dryRunFrom] at accepted
    split at accepted
    · cases accepted
    · rename_i window claimed' stepped
      have isOwn := own q List.mem_cons_self
      have later : ∀ q ∈ rest, q.req.agent = agent :=
        fun q member => own q (List.mem_cons_of_mem _ member)
      rw [← isOwn] at ready
      rcases answered_submit (unchanged ran) stepped follows.1 ready with
        ⟨status, detail, answered⟩
      rw [deliver]
      dsimp only
      rw [answered.answer]
      dsimp only
      split
      · rename_i isOk
        have ⟨alive, moved⟩ := answered.moved isOk
        have resolved := (dryStep_ok stepped).1
        intro settled member
        rcases List.mem_cons.mp member with rfl | member
        · exact ⟨status, detail, rfl, answered.kept⟩
        · apply induction _ _ later accepted ?_ (isOwn ▸ answered.ready) settled member
          rw [moved]
          exact follows.2 window _ resolved alive
      · intro settled member
        rcases List.mem_cons.mp member with rfl | member
        · exact ⟨status, detail, rfl, answered.kept⟩
        · rcases List.mem_map.mp member with ⟨_, _, rfl⟩
          exact ⟨status, "aborted", rfl, answered.kept⟩

end EclipseOS.Abyss.Batching
