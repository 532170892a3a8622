import Mathlib.Logic.Function.Basic

/-! # Job lanes

Each device with jobs has a lane and a worker that runs its tasks. Requests come in on threads
of their own; whoever finds no lane for its device makes one and starts the worker, which takes
the lane away again when it finds it empty. -/

namespace EclipseOS.Fog.Lanes

abbrev JobId := UInt64

/-- An `st_dev`, the key of a lane. -/
abbrev Dev := UInt64

inductive TaskKind where
  | job
  | undo
  deriving DecidableEq

/-- What a lane runs; the work of a job is left out. -/
structure Task where
  id : JobId
  kind : TaskKind
  deriving DecidableEq

inductive Reply where
  | jobAccepted (id : JobId)
  | undoResult (ok : Bool) (reason : Option String)
  deriving DecidableEq

/-- Where a thread is, between two accesses to what it shares with others. -/
inductive Place where
  | idle
  /-- `submit`: its id is taken. -/
  | numbered (id : JobId)
  /-- `submit`: the job is in the map of controls, and accepted. -/
  | registered (id : JobId)
  /-- `undo`: the device is known. -/
  | chosen (dev : Dev)
  | ready (dev : Dev) (task : Task)
  /-- The lane is made, and the worker not yet started. -/
  | spawning (dev : Dev) (task : Task)
  /-- `undo`: its task is in a lane. -/
  | awaiting (id : JobId)
  /-- A worker with its next task. -/
  | working (dev : Dev) (task : Task)
  | running (dev : Dev) (task : Task)
  /-- A worker back from a task. -/
  | finished (dev : Dev)
  deriving DecidableEq

/-- What the threads share, and what was enqueued for each device and started so far. -/
structure State where
  places : Nat → Place
  nextId : JobId
  ctls : List JobId
  lanes : Dev → Option (List Task)
  /-- Results sent to the threads that wait for an undo. -/
  results : List (JobId × Option String)
  replies : List (Nat × Reply)
  /-- The jobs that were broadcast as queued. -/
  hub : List JobId
  enqueued : Dev → List Task
  started : Dev → List Task

def State.initial : State where
  places := fun _ => .idle
  nextId := 1
  ctls := []
  lanes := fun _ => none
  results := []
  replies := []
  hub := []
  enqueued := fun _ => []
  started := fun _ => []

inductive Action where
  | submit (t : Nat)
  | register (t : Nat)
  /-- The job is broadcast, and its device looked up. -/
  | look (t : Nat) (dev : Dev)
  /-- The journal says which device the newest undoable entry is on, or why there is none. -/
  | undo (t : Nat) (dev : Except String Dev)
  | number (t : Nat)
  | enqueue (t : Nat)
  | spawn (t worker : Nat)
  | spawnFails (t : Nat)
  | start (worker : Nat)
  /-- A task returns; an undo with its error, if there is one. -/
  | finish (worker : Nat) (error : Option String)
  | next (worker : Nat)
  | answered (t : Nat)

namespace State

def goTo (s : State) (t : Nat) (place : Place) : State :=
  { s with places := Function.update s.places t place }

def setLane (s : State) (dev : Dev) (lane : Option (List Task)) : State :=
  { s with lanes := Function.update s.lanes dev lane }

/-- Where the caller of `enqueue` goes on: a submission is done, an undo waits. -/
def afterwards (task : Task) : Place :=
  match task.kind with
  | .job => .idle
  | .undo => .awaiting task.id

/-- `enqueue`, as far as it holds the lock. -/
def enqueue (s : State) (t : Nat) (dev : Dev) (task : Task) : State :=
  let logged := { s with enqueued := Function.update s.enqueued dev (s.enqueued dev ++ [task]) }
  match s.lanes dev with
  | some queue => (logged.setLane dev (some (queue ++ [task]))).goTo t (afterwards task)
  | none => (logged.setLane dev (some [])).goTo t (.spawning dev task)

/-- What the worker does under the lock after a task. -/
def next (s : State) (worker : Nat) (dev : Dev) : State :=
  match s.lanes dev with
  | some (task :: queue) => (s.setLane dev (some queue)).goTo worker (.working dev task)
  | _ => (s.setLane dev none).goTo worker .idle

/-- What a task leaves behind: a job its control taken away, an undo its result. -/
def finish (s : State) (task : Task) (error : Option String) : State :=
  match task.kind with
  | .job => { s with ctls := s.ctls.erase task.id }
  | .undo => { s with results := s.results ++ [(task.id, error)] }

def step (s : State) : Action → Option State
  | .submit t =>
    match s.places t with
    | .idle => some ({ s with nextId := s.nextId + 1 }.goTo t (.numbered s.nextId))
    | _ => none
  | .register t =>
    match s.places t with
    | .numbered id =>
      some ({ s with
        ctls := id :: s.ctls
        replies := s.replies ++ [(t, Reply.jobAccepted id)] }.goTo t (.registered id))
    | _ => none
  | .look t dev =>
    match s.places t with
    | .registered id => some ({ s with hub := s.hub ++ [id] }.goTo t (.ready dev ⟨id, .job⟩))
    | _ => none
  | .undo t (.ok dev) =>
    match s.places t with
    | .idle => some (s.goTo t (.chosen dev))
    | _ => none
  | .undo t (.error reason) =>
    match s.places t with
    | .idle =>
      some { s with replies := s.replies ++ [(t, Reply.undoResult false (some reason))] }
    | _ => none
  | .number t =>
    match s.places t with
    | .chosen dev =>
      some ({ s with nextId := s.nextId + 1, hub := s.hub ++ [s.nextId] }.goTo t
        (.ready dev ⟨s.nextId, .undo⟩))
    | _ => none
  | .enqueue t =>
    match s.places t with
    | .ready dev task => some (s.enqueue t dev task)
    | _ => none
  | .spawn t worker =>
    match s.places t, s.places worker with
    | .spawning dev task, .idle =>
      some ((s.goTo t (afterwards task)).goTo worker (.working dev task))
    | _, _ => none
  | .spawnFails t =>
    match s.places t with
    | .spawning _ _ => some (s.goTo t .idle)
    | _ => none
  | .start worker =>
    match s.places worker with
    | .working dev task =>
      some ({ s with started := Function.update s.started dev (s.started dev ++ [task]) }.goTo
        worker (.running dev task))
    | _ => none
  | .finish worker error =>
    match s.places worker with
    | .running dev task => some ((s.finish task error).goTo worker (.finished dev))
    | _ => none
  | .next worker =>
    match s.places worker with
    | .finished dev => some (s.next worker dev)
    | _ => none
  | .answered t =>
    match s.places t with
    | .awaiting id =>
      (s.results.find? (·.1 = id)).map fun result =>
        { s with
          replies := s.replies ++
            [(t, Reply.undoResult result.2.isNone result.2)] }.goTo t .idle
    | _ => none

end State

def runFrom (s : State) (actions : List Action) : Option State := actions.foldlM State.step s

def run (actions : List Action) : Option State := runFrom .initial actions

/-! ## Owners -/

def Place.lane : Place → Option Dev
  | .spawning dev _ | .working dev _ | .running dev _ | .finished dev => some dev
  | _ => none

/-- The task a thread is about to run, or to have run. -/
def Place.held : Place → List Task
  | .spawning _ task | .working _ task => [task]
  | _ => []

@[simp] theorem afterwards_lane (task : Task) : (State.afterwards task).lane = none := by
  unfold State.afterwards
  cases task.kind <;> rfl

@[simp] theorem afterwards_held (task : Task) : (State.afterwards task).held = [] := by
  unfold State.afterwards
  cases task.kind <;> rfl

structure Quiet (s s' : State) : Prop where
  lanes : s'.lanes = s.lanes
  enqueued : s'.enqueued = s.enqueued
  started : s'.started = s.started
  lane : ∀ t, (s'.places t).lane = (s.places t).lane
  held : ∀ t, (s'.places t).held = (s.places t).held
  elsewhere : ∃ t, ∀ u, u ≠ t → s'.places u = s.places u

theorem Quiet.goTo {s other : State} {t : Nat} {place : Place} (lanes : other.lanes = s.lanes)
    (enqueued : other.enqueued = s.enqueued) (started : other.started = s.started)
    (places : other.places = s.places) (lane : place.lane = (s.places t).lane)
    (held : place.held = (s.places t).held) : Quiet s (other.goTo t place) where
  lanes
  enqueued
  started
  lane := by
    intro u
    simp only [State.goTo, places, Function.update_apply]
    split
    · rename_i same
      rw [same, lane]
    · rfl
  held := by
    intro u
    simp only [State.goTo, places, Function.update_apply]
    split
    · rename_i same
      rw [same, held]
    · rfl
  elsewhere := by
    refine ⟨t, fun u other => ?_⟩
    simp only [State.goTo, places, Function.update_of_ne other]

def State.spawn (s : State) (t worker : Nat) (dev : Dev) (task : Task) : State :=
  (s.goTo t (State.afterwards task)).goTo worker (.working dev task)

def State.start (s : State) (worker : Nat) (dev : Dev) (task : Task) : State :=
  { s with started := Function.update s.started dev (s.started dev ++ [task]) }.goTo worker
    (.running dev task)

/-- The steps that change a lane or its owner. -/
inductive Moves (s : State) : State → Prop where
  | enqueue (t : Nat) (dev : Dev) (task : Task) (place : s.places t = .ready dev task) :
      Moves s (s.enqueue t dev task)
  | spawn (t worker : Nat) (dev : Dev) (task : Task) (place : s.places t = .spawning dev task)
      (free : s.places worker = .idle) : Moves s (s.spawn t worker dev task)
  | start (worker : Nat) (dev : Dev) (task : Task) (place : s.places worker = .working dev task) :
      Moves s (s.start worker dev task)
  | next (worker : Nat) (dev : Dev) (place : s.places worker = .finished dev) :
      Moves s (s.next worker dev)

theorem finish_lanes (s : State) (task : Task) (error : Option String) :
    (s.finish task error).lanes = s.lanes ∧ (s.finish task error).enqueued = s.enqueued ∧
      (s.finish task error).started = s.started ∧ (s.finish task error).places = s.places := by
  unfold State.finish
  cases task.kind <;> exact ⟨rfl, rfl, rfl, rfl⟩

theorem step_cases {s s' : State} {action : Action} (stepped : s.step action = some s') :
    Quiet s s' ∨ Moves s s' ∨
      ∃ t dev task, action = .spawnFails t ∧ s.places t = .spawning dev task ∧
        s' = s.goTo t .idle := by
  cases action with
  | submit t =>
    simp only [State.step] at stepped
    split at stepped
    · rename_i place
      obtain rfl := Option.some.inj stepped
      exact .inl (Quiet.goTo rfl rfl rfl rfl (by rw [place]; rfl) (by rw [place]; rfl))
    · cases stepped
  | register t =>
    simp only [State.step] at stepped
    split at stepped
    · rename_i id place
      obtain rfl := Option.some.inj stepped
      exact .inl (Quiet.goTo rfl rfl rfl rfl (by rw [place]; rfl) (by rw [place]; rfl))
    · cases stepped
  | look t dev =>
    simp only [State.step] at stepped
    split at stepped
    · rename_i id place
      obtain rfl := Option.some.inj stepped
      exact .inl (Quiet.goTo rfl rfl rfl rfl (by rw [place]; rfl) (by rw [place]; rfl))
    · cases stepped
  | undo t answer =>
    cases answer with
    | ok dev =>
      simp only [State.step] at stepped
      split at stepped
      · rename_i place
        obtain rfl := Option.some.inj stepped
        exact .inl (Quiet.goTo rfl rfl rfl rfl (by rw [place]; rfl) (by rw [place]; rfl))
      · cases stepped
    | error reason =>
      simp only [State.step] at stepped
      split at stepped
      · obtain rfl := Option.some.inj stepped
        exact .inl ⟨rfl, rfl, rfl, fun _ => rfl, fun _ => rfl, t, fun _ _ => rfl⟩
      · cases stepped
  | number t =>
    simp only [State.step] at stepped
    split at stepped
    · rename_i dev place
      obtain rfl := Option.some.inj stepped
      exact .inl (Quiet.goTo rfl rfl rfl rfl (by rw [place]; rfl) (by rw [place]; rfl))
    · cases stepped
  | enqueue t =>
    simp only [State.step] at stepped
    split at stepped
    · rename_i dev task place
      obtain rfl := Option.some.inj stepped
      exact .inr (.inl (.enqueue t dev task place))
    · cases stepped
  | spawn t worker =>
    simp only [State.step] at stepped
    split at stepped
    · rename_i dev task place free
      obtain rfl := Option.some.inj stepped
      exact .inr (.inl (.spawn t worker dev task place free))
    · cases stepped
  | spawnFails t =>
    simp only [State.step] at stepped
    split at stepped
    · rename_i dev task place
      obtain rfl := Option.some.inj stepped
      exact .inr (.inr ⟨t, dev, task, rfl, place, rfl⟩)
    · cases stepped
  | start worker =>
    simp only [State.step] at stepped
    split at stepped
    · rename_i dev task place
      obtain rfl := Option.some.inj stepped
      exact .inr (.inl (.start worker dev task place))
    · cases stepped
  | finish worker error =>
    simp only [State.step] at stepped
    split at stepped
    · rename_i dev task place
      obtain rfl := Option.some.inj stepped
      have same := finish_lanes s task error
      exact .inl (Quiet.goTo same.1 same.2.1 same.2.2.1 same.2.2.2
        (by rw [place]; rfl) (by rw [place]; rfl))
    · cases stepped
  | next worker =>
    simp only [State.step] at stepped
    split at stepped
    · rename_i dev place
      obtain rfl := Option.some.inj stepped
      exact .inr (.inl (.next worker dev place))
    · cases stepped
  | answered t =>
    simp only [State.step] at stepped
    split at stepped
    · rename_i id place
      obtain ⟨result, -, rfl⟩ := Option.map_eq_some_iff.mp stepped
      exact .inl (Quiet.goTo rfl rfl rfl rfl (by rw [place]; rfl) (by rw [place]; rfl))
    · cases stepped

/-! ## The lane of a device -/

/-- What the threads and the shared map say of a device. -/
inductive LaneIs (s : State) (dev : Dev) : Prop where
  | free (unowned : ∀ t, (s.places t).lane ≠ some dev) (lane : s.lanes dev = none)
      (order : s.enqueued dev = s.started dev)
  | served (t : Nat) (queue : List Task) (sole : ∀ u, (s.places u).lane = some dev ↔ u = t)
      (lane : s.lanes dev = some queue)
      (order : s.enqueued dev = s.started dev ++ (s.places t).held ++ queue)

/-- A lane without a worker; the task its worker was to start with is lost. -/
structure Stuck (s : State) (dev : Dev) : Prop where
  unowned : ∀ t, (s.places t).lane ≠ some dev
  lane : ∃ queue, s.lanes dev = some queue ∧
    ∃ task, s.enqueued dev = s.started dev ++ task :: queue

structure Same (s s' : State) (dev : Dev) : Prop where
  lanes : s'.lanes dev = s.lanes dev
  enqueued : s'.enqueued dev = s.enqueued dev
  started : s'.started dev = s.started dev
  lane : ∀ t, (s'.places t).lane = some dev ↔ (s.places t).lane = some dev
  held : ∀ t, (s.places t).lane = some dev → (s'.places t).held = (s.places t).held

theorem Quiet.same {s s' : State} (quiet : Quiet s s') (dev : Dev) : Same s s' dev where
  lanes := by rw [quiet.lanes]
  enqueued := by rw [quiet.enqueued]
  started := by rw [quiet.started]
  lane := fun t => by rw [quiet.lane]
  held := fun t _ => quiet.held t

theorem Same.goTo {s s' : State} {dev : Dev} (same : Same s s' dev) {t : Nat} {place : Place}
    (before : (s'.places t).lane ≠ some dev) (after : place.lane ≠ some dev) :
    Same s (s'.goTo t place) dev where
  lanes := same.lanes
  enqueued := same.enqueued
  started := same.started
  lane := by
    intro u
    simp only [State.goTo, Function.update_apply]
    split
    · rename_i here
      rw [here, ← same.lane]
      exact iff_of_false after before
    · exact same.lane u
  held := by
    intro u owner
    simp only [State.goTo, Function.update_apply]
    split
    · rename_i here
      rw [here, ← same.lane] at owner
      exact absurd owner before
    · exact same.held u owner

theorem Same.refl (s : State) (dev : Dev) : Same s s dev :=
  ⟨rfl, rfl, rfl, fun _ => Iff.rfl, fun _ _ => rfl⟩

theorem LaneIs.same {s s' : State} {dev : Dev} (same : Same s s' dev) (before : LaneIs s dev) :
    LaneIs s' dev := by
  cases before with
  | free unowned lane order =>
    refine .free (fun t owner => unowned t ((same.lane t).mp owner)) ?_ ?_
    · rw [same.lanes]
      exact lane
    · rw [same.enqueued, same.started]
      exact order
  | served t queue sole lane order =>
    refine .served t queue (fun u => (same.lane u).trans (sole u)) ?_ ?_
    · rw [same.lanes]
      exact lane
    · rw [same.enqueued, same.started, same.held t ((sole t).mpr rfl)]
      exact order

theorem Stuck.same {s s' : State} {dev : Dev} (same : Same s s' dev) (before : Stuck s dev) :
    Stuck s' dev where
  unowned := fun t owner => before.unowned t ((same.lane t).mp owner)
  lane := by
    rw [same.lanes, same.enqueued, same.started]
    exact before.lane

theorem same_enqueue {s : State} {t : Nat} {dev other : Dev} {task : Task}
    (place : s.places t = .ready dev task) (different : other ≠ dev) :
    Same s (s.enqueue t dev task) other := by
  have logged : ∀ lane, Same s
      (({ s with enqueued := Function.update s.enqueued dev (s.enqueued dev ++ [task]) } :
        State).setLane dev lane) other := fun lane =>
    { lanes := Function.update_of_ne different _ _
      enqueued := Function.update_of_ne different _ _
      started := rfl
      lane := fun _ => Iff.rfl
      held := fun _ _ => rfl }
  have before : (s.places t).lane ≠ some other := by
    rw [place]
    exact Option.some_ne_none other |>.symm
  unfold State.enqueue
  split
  · exact (logged _).goTo before (by simp)
  · exact (logged _).goTo before fun owner => different (Option.some.inj owner).symm

theorem same_spawn {s : State} {t worker : Nat} {dev other : Dev} {task : Task}
    (place : s.places t = .spawning dev task) (free : s.places worker = .idle)
    (different : other ≠ dev) : Same s (s.spawn t worker dev task) other := by
  have apart : worker ≠ t := by
    intro same
    rw [same, place] at free
    cases free
  refine Same.goTo (Same.goTo (Same.refl s other) ?_ ?_) ?_ ?_
  · rw [place]
    exact fun owner => different (Option.some.inj owner).symm
  · simp
  · simp only [State.goTo, Function.update_of_ne apart, free]
    exact Option.some_ne_none other |>.symm
  · exact fun owner => different (Option.some.inj owner).symm

theorem same_start {s : State} {worker : Nat} {dev other : Dev} {task : Task}
    (place : s.places worker = .working dev task) (different : other ≠ dev) :
    Same s (s.start worker dev task) other := by
  have logged : Same s
      { s with started := Function.update s.started dev (s.started dev ++ [task]) } other :=
    { lanes := rfl
      enqueued := rfl
      started := Function.update_of_ne different _ _
      lane := fun _ => Iff.rfl
      held := fun _ _ => rfl }
  refine logged.goTo ?_ fun owner => different (Option.some.inj owner).symm
  rw [place]
  exact fun owner => different (Option.some.inj owner).symm

theorem same_next {s : State} {worker : Nat} {dev other : Dev}
    (place : s.places worker = .finished dev) (different : other ≠ dev) :
    Same s (s.next worker dev) other := by
  have set : ∀ lane, Same s (s.setLane dev lane) other := fun lane =>
    { lanes := Function.update_of_ne different _ _
      enqueued := rfl
      started := rfl
      lane := fun _ => Iff.rfl
      held := fun _ _ => rfl }
  have before : (s.places worker).lane ≠ some other := by
    rw [place]
    exact fun owner => different (Option.some.inj owner).symm
  unfold State.next
  split
  · exact (set _).goTo before fun owner => different (Option.some.inj owner).symm
  · exact (set _).goTo before (Option.some_ne_none other |>.symm)

/-! ## One step -/

theorem enqueue_here {s : State} {t : Nat} {dev : Dev} {task : Task}
    (place : s.places t = .ready dev task) (before : LaneIs s dev) :
    LaneIs (s.enqueue t dev task) dev := by
  cases before with
  | free unowned lane order =>
    unfold State.enqueue
    rw [lane]
    refine .served t [] (fun u => ?_) (Function.update_self _ _ _) ?_
    · simp only [State.goTo, Function.update_apply]
      split
      · rename_i here
        exact iff_of_true rfl here
      · rename_i elsewhere
        exact iff_of_false (unowned u) elsewhere
    · simp [State.goTo, State.setLane, Place.held, order]
  | served owner queue sole lane order =>
    have apart : owner ≠ t := by
      intro same
      have mine := (sole owner).mpr rfl
      rw [same, place] at mine
      cases mine
    unfold State.enqueue
    rw [lane]
    refine .served owner (queue ++ [task]) (fun u => ?_) (Function.update_self _ _ _) ?_
    · simp only [State.goTo, Function.update_apply]
      split
      · rename_i here
        refine iff_of_false (by simp) fun same => apart ?_
        rw [← same, here]
      · exact sole u
    · simp [State.goTo, State.setLane, Function.update_of_ne apart, order]

theorem spawn_here {s : State} {t worker : Nat} {dev : Dev} {task : Task}
    (place : s.places t = .spawning dev task) (free : s.places worker = .idle)
    (before : LaneIs s dev) : LaneIs (s.spawn t worker dev task) dev := by
  have mine : (s.places t).lane = some dev := by
    rw [place]
    rfl
  cases before with
  | free unowned lane order => exact absurd mine (unowned t)
  | served owner queue sole lane order =>
    obtain rfl := (sole t).mp mine
    refine .served worker queue (fun u => ?_) lane ?_
    · simp only [State.spawn, State.goTo, Function.update_apply]
      split
      · rename_i here
        exact iff_of_true rfl here
      · rename_i elsewhere
        split
        · exact iff_of_false (by simp) elsewhere
        · rename_i other
          exact iff_of_false (fun owner => other ((sole u).mp owner)) elsewhere
    · rw [place] at order
      simpa [State.spawn, State.goTo, Place.held] using order

theorem start_here {s : State} {worker : Nat} {dev : Dev} {task : Task}
    (place : s.places worker = .working dev task) (before : LaneIs s dev) :
    LaneIs (s.start worker dev task) dev := by
  have mine : (s.places worker).lane = some dev := by
    rw [place]
    rfl
  cases before with
  | free unowned lane order => exact absurd mine (unowned worker)
  | served owner queue sole lane order =>
    obtain rfl := (sole worker).mp mine
    refine .served worker queue (fun u => ?_) lane ?_
    · simp only [State.start, State.goTo, Function.update_apply]
      split
      · rename_i here
        exact iff_of_true rfl here
      · exact sole u
    · rw [place] at order
      simpa [State.start, State.goTo, Place.held] using order

theorem next_here {s : State} {worker : Nat} {dev : Dev}
    (place : s.places worker = .finished dev) (before : LaneIs s dev) :
    LaneIs (s.next worker dev) dev := by
  have mine : (s.places worker).lane = some dev := by
    rw [place]
    rfl
  cases before with
  | free unowned lane order => exact absurd mine (unowned worker)
  | served owner queue sole lane order =>
    obtain rfl := (sole worker).mp mine
    rw [place] at order
    cases queue with
    | nil =>
      unfold State.next
      rw [lane]
      refine .free (fun u => ?_) (Function.update_self _ _ _) ?_
      · simp only [State.goTo, State.setLane, Function.update_apply]
        split
        · exact Option.some_ne_none dev |>.symm
        · rename_i elsewhere
          exact fun owner => elsewhere ((sole u).mp owner)
      · simpa [State.goTo, State.setLane, Place.held] using order
    | cons task rest =>
      unfold State.next
      rw [lane]
      refine .served worker rest (fun u => ?_) (Function.update_self _ _ _) ?_
      · simp only [State.goTo, State.setLane, Function.update_apply]
        split
        · rename_i here
          exact iff_of_true rfl here
        · exact sole u
      · simpa [State.goTo, State.setLane, Place.held] using order

theorem moves_keeps {s s' : State} (moves : Moves s s') (dev : Dev) (before : LaneIs s dev) :
    LaneIs s' dev := by
  cases moves with
  | enqueue t moved task place =>
    by_cases here : dev = moved
    · subst here
      exact enqueue_here place before
    · exact before.same (same_enqueue place here)
  | spawn t worker moved task place free =>
    by_cases here : dev = moved
    · subst here
      exact spawn_here place free before
    · exact before.same (same_spawn place free here)
  | start worker moved task place =>
    by_cases here : dev = moved
    · subst here
      exact start_here place before
    · exact before.same (same_start place here)
  | next worker moved place =>
    by_cases here : dev = moved
    · subst here
      exact next_here place before
    · exact before.same (same_next place here)

theorem same_fails {s : State} {t : Nat} {dev other : Dev} {task : Task}
    (place : s.places t = .spawning dev task) (different : other ≠ dev) :
    Same s (s.goTo t .idle) other := by
  refine (Same.refl s other).goTo ?_ (Option.some_ne_none other |>.symm)
  rw [place]
  exact fun owner => different (Option.some.inj owner).symm

theorem stuck_of_fails {s : State} {t : Nat} {dev : Dev} {task : Task}
    (place : s.places t = .spawning dev task) (before : LaneIs s dev) :
    Stuck (s.goTo t .idle) dev := by
  have mine : (s.places t).lane = some dev := by
    rw [place]
    rfl
  cases before with
  | free unowned lane order => exact absurd mine (unowned t)
  | served owner queue sole lane order =>
    obtain rfl := (sole t).mp mine
    rw [place] at order
    refine ⟨fun u => ?_, queue, lane, task, by simpa [State.goTo, Place.held] using order⟩
    simp only [State.goTo, Function.update_apply]
    split
    · exact Option.some_ne_none dev |>.symm
    · rename_i elsewhere
      exact fun owner => elsewhere ((sole u).mp owner)

theorem Stuck.enqueue {s : State} {dev : Dev} (stuck : Stuck s dev) (t : Nat) (task : Task) :
    Stuck (s.enqueue t dev task) dev := by
  obtain ⟨queue, lane, lost, order⟩ := stuck.lane
  unfold State.enqueue
  rw [lane]
  refine ⟨fun u => ?_, queue ++ [task], Function.update_self _ _ _, lost, ?_⟩
  · simp only [State.goTo, Function.update_apply]
    split
    · simp
    · exact stuck.unowned u
  · simp [State.goTo, State.setLane, order]

theorem Stuck.step {s s' : State} {dev : Dev} (stuck : Stuck s dev) {action : Action}
    (stepped : s.step action = some s') : Stuck s' dev := by
  have other : ∀ {t : Nat} {moved : Dev}, (s.places t).lane = some moved → dev ≠ moved := by
    intro t moved owner here
    subst here
    exact stuck.unowned t owner
  rcases step_cases stepped with quiet | moves | ⟨t, moved, task, -, place, rfl⟩
  · exact stuck.same (quiet.same dev)
  · cases moves with
    | enqueue t moved task place =>
      by_cases here : dev = moved
      · subst here
        exact stuck.enqueue t task
      · exact stuck.same (same_enqueue place here)
    | spawn t worker moved task place free =>
      exact stuck.same (same_spawn place free (other (t := t) (by rw [place]; rfl)))
    | start worker moved task place =>
      exact stuck.same (same_start place (other (t := worker) (by rw [place]; rfl)))
    | next worker moved place =>
      exact stuck.same (same_next place (other (t := worker) (by rw [place]; rfl)))
  · exact stuck.same (same_fails place (other (t := t) (by rw [place]; rfl)))

/-! ## Runs -/

theorem laneIs_initial (dev : Dev) : LaneIs .initial dev :=
  .free (fun _ => (Option.some_ne_none dev).symm) rfl rfl

theorem step_keeps {s s' : State} {action : Action} (stepped : s.step action = some s')
    (before : ∀ dev, LaneIs s dev) :
    (∀ dev, LaneIs s' dev) ∧ (∀ t, action ≠ .spawnFails t) ∨
      (∃ dev, Stuck s' dev) ∧ ∃ t, action = .spawnFails t := by
  cases action with
  | spawnFails t =>
    refine .inr ⟨?_, t, rfl⟩
    simp only [State.step] at stepped
    split at stepped
    · rename_i dev task place
      obtain rfl := Option.some.inj stepped
      exact ⟨dev, stuck_of_fails place (before dev)⟩
    · cases stepped
  | _ =>
    refine .inl ⟨fun dev => ?_, fun t => by simp⟩
    rcases step_cases stepped with quiet | moves | ⟨t, moved, task, failed, -, -⟩
    · exact (before dev).same (quiet.same dev)
    · exact moves_keeps moves dev (before dev)
    · cases failed

theorem stuck_run {dev : Dev} : ∀ {actions : List Action} {s s' : State},
    runFrom s actions = some s' → Stuck s dev → Stuck s' dev
  | [], s, s', ran, stuck => Option.some.inj ran ▸ stuck
  | action :: actions, s, s', ran, stuck => by
      obtain ⟨middle, stepped, rest⟩ := Option.bind_eq_some_iff.mp ran
      exact stuck_run rest (stuck.step stepped)

theorem run_keeps : ∀ {actions : List Action} {s s' : State}, runFrom s actions = some s' →
    (∀ dev, LaneIs s dev) →
      (∀ dev, LaneIs s' dev) ∧ (∀ t, Action.spawnFails t ∉ actions) ∨
        (∃ dev, Stuck s' dev) ∧ ∃ t, Action.spawnFails t ∈ actions
  | [], s, s', ran, before => by
      obtain rfl := Option.some.inj ran
      exact .inl ⟨before, fun t => List.not_mem_nil⟩
  | action :: actions, s, s', ran, before => by
      obtain ⟨middle, stepped, rest⟩ := Option.bind_eq_some_iff.mp ran
      rcases step_keeps stepped before with ⟨kept, started⟩ | ⟨⟨dev, stuck⟩, t, failed⟩
      · rcases run_keeps rest kept with ⟨after, all⟩ | ⟨stuck, t, failed⟩
        · refine .inl ⟨after, fun t member => ?_⟩
          rcases List.mem_cons.mp member with here | there
          · exact started t here.symm
          · exact all t there
        · exact .inr ⟨stuck, t, List.mem_cons_of_mem action failed⟩
      · refine .inr ⟨⟨dev, stuck_run rest stuck⟩, t, ?_⟩
        rw [failed]
        exact List.mem_cons_self

/-! ## Threads at rest -/

def Few (s : State) : Prop := ∃ bound, ∀ t, bound ≤ t → s.places t = .idle

theorem Few.elsewhere {s s' : State} (few : Few s) (t worker : Nat)
    (same : ∀ u, u ≠ t → u ≠ worker → s'.places u = s.places u) : Few s' := by
  obtain ⟨bound, idle⟩ := few
  refine ⟨max bound (max (t + 1) (worker + 1)), fun u beyond => ?_⟩
  rw [same u (by omega) (by omega)]
  exact idle u (by omega)

theorem goTo_elsewhere {s : State} {t u : Nat} {place : Place} (other : u ≠ t) :
    (s.goTo t place).places u = s.places u := Function.update_of_ne other _ _

theorem Few.step {s s' : State} (few : Few s) {action : Action}
    (stepped : s.step action = some s') : Few s' := by
  rcases step_cases stepped with quiet | moves | ⟨t, dev, task, -, -, rfl⟩
  · obtain ⟨t, same⟩ := quiet.elsewhere
    exact few.elsewhere t t fun u other _ => same u other
  · cases moves with
    | enqueue t dev task place =>
      refine few.elsewhere t t fun u other _ => ?_
      unfold State.enqueue
      split <;> exact goTo_elsewhere other
    | spawn t worker dev task place free =>
      refine few.elsewhere t worker fun u other another => ?_
      exact (goTo_elsewhere another).trans (goTo_elsewhere other)
    | start worker dev task place =>
      exact few.elsewhere worker worker fun u other _ => goTo_elsewhere other
    | next worker dev place =>
      refine few.elsewhere worker worker fun u other _ => ?_
      unfold State.next
      split <;> exact goTo_elsewhere other
  · exact few.elsewhere t t fun u other _ => goTo_elsewhere other

theorem Few.run : ∀ {actions : List Action} {s s' : State}, runFrom s actions = some s' →
    Few s → Few s'
  | [], s, s', ran, few => Option.some.inj ran ▸ few
  | action :: actions, s, s', ran, few => by
      obtain ⟨middle, stepped, rest⟩ := Option.bind_eq_some_iff.mp ran
      exact Few.run rest (few.step stepped)

/-! ## Service -/

/-- The thread that serves a lane by an action: its worker, or whoever starts that. -/
def Action.server : Action → Option Nat
  | .spawn t _ => some t
  | .start worker | .finish worker _ | .next worker => some worker
  | _ => none

/-- A step of the thread that has a device's lane in its care. -/
def Serves (dev : Dev) (s s' : State) : Prop :=
  ∃ action t, action.server = some t ∧ (s.places t).lane = some dev ∧ s.step action = some s'

inductive Served (dev : Dev) : Nat → State → State → Prop where
  | none (s : State) : Served dev 0 s s
  | more {n : Nat} {s s' s'' : State} (before : Served dev n s s') (serves : Serves dev s' s'') :
      Served dev (n + 1) s s''

/-- How far a lane's owner is from its next look at the queue. -/
def Place.stage : Place → Nat
  | .spawning .. => 4
  | .working .. => 3
  | .running .. => 2
  | .finished _ => 1
  | _ => 0

inductive Left (s : State) (dev : Dev) : Nat → Prop where
  | done (unowned : ∀ t, (s.places t).lane ≠ some dev) : Left s dev 0
  | owed (t : Nat) (queue : List Task) (owner : (s.places t).lane = some dev)
      (lane : s.lanes dev = some queue) : Left s dev ((s.places t).stage + 3 * queue.length)

theorem stage_of_lane {place : Place} {dev : Dev} (owner : place.lane = some dev) :
    0 < place.stage := by
  cases place <;> simp_all [Place.lane, Place.stage]

theorem left_of_laneIs {s : State} {dev : Dev} (lane : LaneIs s dev) : ∃ n, Left s dev n := by
  cases lane with
  | free unowned lane order => exact ⟨0, .done unowned⟩
  | served t queue sole lane order => exact ⟨_, .owed t queue ((sole t).mpr rfl) lane⟩

theorem all_started {s : State} {dev : Dev} (lane : LaneIs s dev) (left : Left s dev 0) :
    s.started dev = s.enqueued dev ∧ s.lanes dev = none := by
  cases lane with
  | free unowned lane order => exact ⟨order.symm, lane⟩
  | served t queue sole lane order =>
    generalize none : 0 = n at left
    cases left with
    | done unowned => exact absurd ((sole t).mpr rfl) (unowned t)
    | owed u queue owner lane =>
      have some := stage_of_lane owner
      omega

theorem serves_cases {dev : Dev} {s s' : State} (serves : Serves dev s s') :
    (∃ t worker task, s.places t = .spawning dev task ∧ s.places worker = .idle ∧
      s' = s.spawn t worker dev task) ∨
    (∃ worker task, s.places worker = .working dev task ∧ s' = s.start worker dev task) ∨
    (∃ worker task error, s.places worker = .running dev task ∧
      s' = (s.finish task error).goTo worker (.finished dev)) ∨
    ∃ worker, s.places worker = .finished dev ∧ s' = s.next worker dev := by
  obtain ⟨action, t, server, owner, stepped⟩ := serves
  cases action with
  | spawn u worker =>
    obtain rfl := Option.some.inj server
    simp only [State.step] at stepped
    split at stepped
    · rename_i moved task place free
      obtain rfl : moved = dev := by simpa [place, Place.lane] using owner
      exact .inl ⟨u, worker, task, place, free, (Option.some.inj stepped).symm⟩
    · cases stepped
  | start worker =>
    obtain rfl := Option.some.inj server
    simp only [State.step] at stepped
    split at stepped
    · rename_i moved task place
      obtain rfl : moved = dev := by simpa [place, Place.lane] using owner
      exact .inr (.inl ⟨worker, task, place, (Option.some.inj stepped).symm⟩)
    · cases stepped
  | finish worker error =>
    obtain rfl := Option.some.inj server
    simp only [State.step] at stepped
    split at stepped
    · rename_i moved task place
      obtain rfl : moved = dev := by simpa [place, Place.lane] using owner
      exact .inr (.inr (.inl ⟨worker, task, error, place, (Option.some.inj stepped).symm⟩))
    · cases stepped
  | next worker =>
    obtain rfl := Option.some.inj server
    simp only [State.step] at stepped
    split at stepped
    · rename_i moved place
      obtain rfl : moved = dev := by simpa [place, Place.lane] using owner
      exact .inr (.inr (.inr ⟨worker, place, (Option.some.inj stepped).symm⟩))
    · cases stepped
  | submit | register | look | undo | number | enqueue | spawnFails | answered => cases server

theorem serves_keeps {dev : Dev} {s s' : State} (serves : Serves dev s s')
    (before : ∀ other, LaneIs s other) : ∀ other, LaneIs s' other := by
  obtain ⟨action, t, server, -, stepped⟩ := serves
  rcases step_keeps stepped before with ⟨kept, -⟩ | ⟨-, u, rfl⟩
  · exact kept
  · cases server

theorem left_eq {s : State} {dev : Dev} {t n : Nat} {queue : List Task} (lane : LaneIs s dev)
    (owner : (s.places t).lane = some dev) (held : s.lanes dev = some queue)
    (left : Left s dev n) : n = (s.places t).stage + 3 * queue.length := by
  cases left with
  | done unowned => exact absurd owner (unowned t)
  | owed u other another also =>
    cases lane with
    | free unowned lane order => exact absurd owner (unowned t)
    | served v served sole lane order =>
      have first := (sole t).mp owner
      have second := (sole u).mp another
      rw [first, second]
      rw [held] at also
      rw [Option.some.inj also]

theorem serves_left {dev : Dev} {s s' : State} {n : Nat} (serves : Serves dev s s')
    (lane : LaneIs s dev) (left : Left s dev n) :
    ∃ m, n = m + 1 ∧ Left s' dev m ∧ s'.enqueued dev = s.enqueued dev := by
  have queued : ∀ {t : Nat}, (s.places t).lane = some dev →
      ∃ queue, s.lanes dev = some queue ∧ n = (s.places t).stage + 3 * queue.length := by
    intro t owner
    cases lane with
    | free unowned lane order => exact absurd owner (unowned t)
    | served u queue sole held order =>
      exact ⟨queue, held, left_eq (.served u queue sole held order) owner held left⟩
  rcases serves_cases serves with ⟨t, worker, task, place, free, rfl⟩ |
      ⟨worker, task, place, rfl⟩ | ⟨worker, task, error, place, rfl⟩ | ⟨worker, place, rfl⟩
  · obtain ⟨queue, held, count⟩ := queued (t := t) (by rw [place]; rfl)
    have now : (s.spawn t worker dev task).places worker = .working dev task :=
      Function.update_self _ _ _
    refine ⟨_, ?_, .owed worker queue (by rw [now]; rfl) held, rfl⟩
    rw [count, place, now]
    simp only [Place.stage]
    omega
  · obtain ⟨queue, held, count⟩ := queued (t := worker) (by rw [place]; rfl)
    have now : (s.start worker dev task).places worker = .running dev task :=
      Function.update_self _ _ _
    refine ⟨_, ?_, .owed worker queue (by rw [now]; rfl) held, rfl⟩
    rw [count, place, now]
    simp only [Place.stage]
    omega
  · obtain ⟨queue, held, count⟩ := queued (t := worker) (by rw [place]; rfl)
    have now : ((s.finish task error).goTo worker (.finished dev)).places worker =
        .finished dev := Function.update_self _ _ _
    have same := finish_lanes s task error
    refine ⟨_, ?_, .owed worker queue (by rw [now]; rfl) (same.1.symm ▸ held), by
      exact congrFun same.2.1 dev⟩
    rw [count, place, now]
    simp only [Place.stage]
    omega
  · have mine : (s.places worker).lane = some dev := by
      rw [place]
      rfl
    obtain ⟨queue, held, count⟩ := queued mine
    cases queue with
    | nil =>
      have gone : s.next worker dev = (s.setLane dev none).goTo worker .idle := by
        unfold State.next
        rw [held]
      rw [gone]
      refine ⟨0, ?_, .done fun u => ?_, rfl⟩
      · rw [count, place]
        rfl
      · cases lane with
        | free unowned lane order => exact absurd mine (unowned worker)
        | served owner queue sole lane order =>
          simp only [State.goTo, State.setLane, Function.update_apply]
          split
          · exact Option.some_ne_none dev |>.symm
          · rename_i elsewhere
            intro other
            rw [sole] at other mine
            exact elsewhere (other.trans mine.symm)
    | cons task rest =>
      have taken : s.next worker dev =
          (s.setLane dev (some rest)).goTo worker (.working dev task) := by
        unfold State.next
        rw [held]
      have now : (s.next worker dev).places worker = .working dev task := by
        rw [taken]
        exact Function.update_self _ _ _
      have shorter : (s.next worker dev).lanes dev = some rest := by
        rw [taken]
        exact Function.update_self _ _ _
      refine ⟨_, ?_, .owed worker rest (by rw [now]; rfl) shorter, by rw [taken]; rfl⟩
      rw [count, place, now, List.length_cons]
      simp only [Place.stage]
      omega

theorem serves_on {dev : Dev} {s : State} {n : Nat} (few : Few s) (left : Left s dev (n + 1)) :
    ∃ s', Serves dev s s' := by
  generalize count : n + 1 = k at left
  cases left with
  | done unowned => omega
  | owed t queue owner lane =>
    cases place : s.places t with
    | spawning moved task =>
      obtain ⟨bound, idle⟩ := few
      refine ⟨s.spawn t bound moved task, .spawn t bound, t, rfl, owner, ?_⟩
      simp only [State.step, place, idle bound (Nat.le_refl bound)]
      rfl
    | working moved task =>
      refine ⟨s.start t moved task, .start t, t, rfl, owner, ?_⟩
      simp only [State.step, place]
      rfl
    | running moved task =>
      refine ⟨(s.finish task none).goTo t (.finished moved), .finish t none, t, rfl, owner, ?_⟩
      simp only [State.step, place]
    | finished moved =>
      refine ⟨s.next t moved, .next t, t, rfl, owner, ?_⟩
      simp only [State.step, place]
    | idle | numbered | registered | chosen | ready | awaiting =>
      rw [place] at owner
      cases owner

/-- What a lane's own thread comes to, whatever order its steps are in. -/
structure Completes (s : State) (dev : Dev) (n m : Nat) (s' : State) : Prop where
  bounded : m ≤ n
  goesOn : m < n → ∃ s'', Serves dev s' s''
  ended : m = n → s'.started dev = s.enqueued dev ∧ s'.lanes dev = none

theorem served_left {dev : Dev} {s s' : State} {n m : Nat} (served : Served dev m s s')
    (lanes : ∀ other, LaneIs s other) (few : Few s) (left : Left s dev n) :
    (∀ other, LaneIs s' other) ∧ Few s' ∧ s'.enqueued dev = s.enqueued dev ∧
      ∃ k, n = m + k ∧ Left s' dev k := by
  induction served with
  | none s => exact ⟨lanes, few, rfl, n, by omega, left⟩
  | more before serves ih =>
    obtain ⟨kept, still, same, k, count, left⟩ := ih lanes few left
    obtain ⟨j, fewer, left, unchanged⟩ := serves_left serves (kept dev) left
    obtain ⟨action, t, server, owner, stepped⟩ := id serves
    exact ⟨serves_keeps serves kept, still.step stepped, unchanged.trans same, j, by omega, left⟩

theorem completes {dev : Dev} {s : State} (lanes : ∀ other, LaneIs s other) (few : Few s) :
    ∃ n, ∀ m s', Served dev m s s' → Completes s dev n m s' := by
  obtain ⟨n, left⟩ := left_of_laneIs (lanes dev)
  refine ⟨n, fun m s' served => ?_⟩
  obtain ⟨kept, still, same, k, count, rest⟩ := served_left served lanes few left
  refine ⟨by omega, fun more => ?_, fun all => ?_⟩
  · obtain ⟨j, rfl⟩ : ∃ j, k = j + 1 := ⟨k - 1, by omega⟩
    exact serves_on still rest
  · obtain rfl : k = 0 := by omega
    rw [← same]
    exact all_started (kept dev) rest

/-! ## What lanes promise -/

/-- A thread that is about to run a task of a device. -/
def Place.takes (place : Place) (dev : Dev) (task : Task) : Prop :=
  place = .spawning dev task ∨ place = .working dev task

/-- Each device's tasks are started in the order of their enqueuing, and each of them is
started, in the hands of one thread that is about to, or queued; never two of them run at
once; where some are queued a thread has the lane in its care; and that thread's steps alone
come to their end, where everything enqueued has been started. -/
structure LanesKept (s : State) : Prop where
  once : ∀ dev, ∃ held : List Task,
    (held = [] ∨ ∃ t task, (s.places t).takes dev task ∧ held = [task]) ∧
      s.enqueued dev = s.started dev ++ held ++ (s.lanes dev).getD []
  alone : ∀ dev t u task other,
    s.places t = .running dev task → s.places u = .running dev other → t = u
  attended : ∀ dev queue, s.lanes dev = some queue → queue ≠ [] →
    ∃ t, (s.places t).lane = some dev
  completes : ∀ dev, ∃ n, ∀ m s', Served dev m s s' → Completes s dev n m s'

theorem held_cases {place : Place} {dev : Dev} (owner : place.lane = some dev) :
    place.held = [] ∨ ∃ task, place.takes dev task ∧ place.held = [task] := by
  cases place with
  | spawning moved task =>
    obtain rfl := Option.some.inj owner
    exact .inr ⟨task, .inl rfl, rfl⟩
  | working moved task =>
    obtain rfl := Option.some.inj owner
    exact .inr ⟨task, .inr rfl, rfl⟩
  | running moved task => exact .inl rfl
  | finished moved => exact .inl rfl
  | idle | numbered | registered | chosen | ready | awaiting => cases owner

theorem lanesKept_of_laneIs {s : State} (lanes : ∀ dev, LaneIs s dev) (few : Few s) :
    LanesKept s where
  once := by
    intro dev
    cases lanes dev with
    | free unowned lane order => exact ⟨[], .inl rfl, by simp [lane, order]⟩
    | served t queue sole lane order =>
      refine ⟨(s.places t).held, ?_, by simp [lane, order]⟩
      rcases held_cases ((sole t).mpr rfl) with nothing | ⟨task, takes, one⟩
      · exact .inl nothing
      · exact .inr ⟨t, task, takes, one⟩
  alone := by
    intro dev t u task other first second
    have mine : (s.places t).lane = some dev := by rw [first]; rfl
    have also : (s.places u).lane = some dev := by rw [second]; rfl
    cases lanes dev with
    | free unowned lane order => exact absurd mine (unowned t)
    | served v queue sole lane order => exact ((sole t).mp mine).trans ((sole u).mp also).symm
  attended := by
    intro dev queue held some
    cases lanes dev with
    | free unowned lane order =>
      rw [lane] at held
      cases held
    | served t queue sole lane order => exact ⟨t, (sole t).mpr rfl⟩
  completes := fun dev => Lanes.completes lanes few

theorem Stuck.not_kept {s : State} {dev : Dev} (stuck : Stuck s dev) : ¬ LanesKept s := by
  intro kept
  obtain ⟨queue, lane, lost, order⟩ := stuck.lane
  obtain ⟨held, hands, split⟩ := kept.once dev
  rw [order, lane] at split
  rcases hands with rfl | ⟨t, task, takes, -⟩
  · simpa using congrArg List.length split
  · refine stuck.unowned t ?_
    rcases takes with place | place <;> rw [place] <;> rfl

/-- In a run that every worker starts in, and in no other, the lanes keep what they promise. -/
theorem lanes_kept (actions : List Action) (s : State) (ran : run actions = some s) :
    LanesKept s ↔ ∀ t, Action.spawnFails t ∉ actions := by
  have few : Few s := Few.run ran ⟨0, fun t _ => rfl⟩
  rcases run_keeps ran laneIs_initial with ⟨lanes, started⟩ | ⟨⟨dev, stuck⟩, t, failed⟩
  · exact iff_of_true (lanesKept_of_laneIs lanes few) started
  · exact iff_of_false stuck.not_kept fun all => all t failed

theorem lanes_kept_once :
    ∃ s, run [.submit 0, .register 0, .look 0 7, .enqueue 0, .spawn 0 1, .start 1] = some s ∧
      (LanesKept s ↔ ∀ t, Action.spawnFails t ∉
        [.submit 0, .register 0, .look 0 7, .enqueue 0, .spawn 0 1, .start 1]) :=
  ⟨_, rfl, lanes_kept _ _ rfl⟩

/-- The worker of a device does not start. The next job for the device is queued in the lane,
and no thread will take it. -/
theorem lane_unattended :
    ∃ s, run [.submit 0, .register 0, .look 0 7, .enqueue 0, .spawnFails 0,
        .submit 1, .register 1, .look 1 7, .enqueue 1] = some s ∧
      s.lanes 7 = some [⟨2, .job⟩] ∧ s.started 7 = [] ∧
      (∀ t, (s.places t).lane = none) ∧ ¬ LanesKept s := by
  have unowned : ∃ s, run [.submit 0, .register 0, .look 0 7, .enqueue 0, .spawnFails 0,
      .submit 1, .register 1, .look 1 7, .enqueue 1] = some s ∧
        s.lanes 7 = some [⟨2, .job⟩] ∧ s.started 7 = [] ∧ ∀ t, (s.places t).lane = none := by
    refine ⟨_, rfl, rfl, rfl, fun t => ?_⟩
    match t with
    | 0 => rfl
    | 1 => rfl
    | _ + 2 => rfl
  obtain ⟨s, ran, lane, none, unowned⟩ := unowned
  refine ⟨s, ran, lane, none, unowned, fun kept => ?_⟩
  obtain ⟨t, owner⟩ := kept.attended 7 _ lane (List.cons_ne_nil _ _)
  rw [unowned t] at owner
  cases owner

end EclipseOS.Fog.Lanes
