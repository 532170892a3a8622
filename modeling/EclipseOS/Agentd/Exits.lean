import EclipseOS.Agentd.Run

/-! # Exits are reported

A task whose agent has ended, or never started, is reported to `policyd`, provided the
link takes the message when it is sent: an exit that finds the link down is kept
nowhere. -/

namespace EclipseOS.Agentd

open Foundation PolicyEval

namespace Core

variable {core before middle after : Core} {host : Host} {settings : Config}

/-- `policyd` was told that the task has no agent. -/
def reported (core : Core) (task : String) : Bool :=
  core.log.any fun out => match out with
    | .policyd (.exited _ exited _) => exited = task
    | _ => false

/-- The link is up, and takes one message more. -/
def takes (core : Core) : Bool := (core.link.bind Channel.send).isSome

/-- A provision that is accepted, and whose agent does not start. -/
def unstarted (core : Core) (host : Host) (prov : Prov) : Bool :=
  (core.task prov.task).isNone && prov.wellFormed && host.metaWritten &&
    !(host.socket && host.started)

/-- An exit, and a launch that fails, find the link up. -/
def Reaches (core : Core) : Moment → Prop
  | (_, .procExit task _) => core.isOpen task → core.takes
  | (host, .link (.provision task principal package version statement deadlineMs _ continuation
      resumes account)) =>
      core.unstarted host
        ⟨task, principal, package, version, statement, deadlineMs, continuation, resumes,
          account⟩ → core.takes
  | _ => True

instance (core : Core) : ∀ moment, Decidable (core.Reaches moment)
  | (_, .procExit ..) => inferInstanceAs (Decidable (_ → _))
  | (_, .link message) => match message with
    | .provision .. => inferInstanceAs (Decidable (_ → _))
    | .table .. | .deferAnswer .. | .minted .. | .mintRefused .. | .revoked .. | .auditRecords ..
    | .preview .. | .taskCreated .. | .installReview .. | .done .. | .refused .. | .taskState .. =>
      inferInstanceAs (Decidable True)
  | (_, .open ..) | (_, .line ..) | (_, .closed _) | (_, .linkUp _) | (_, .linkDown)
  | (_, .decisions _) | (_, .humanReply ..) | (_, .inference ..) | (_, .tick) =>
    inferInstanceAs (Decidable True)

/-- Every open task has an agent, or was reported to have none. -/
def Accounted (core : Core) : Prop :=
  ∀ task, core.isOpen task → task ∈ core.procs ∨ core.reported task

theorem reported_of_begins {task : String} (said : before.log <+: after.log)
    (reported : before.reported task) : after.reported task := by
  rcases List.any_eq_true.mp reported with ⟨out, member, told⟩
  exact List.any_eq_true.mpr ⟨out, said.subset member, told⟩

/-! ## What leaves agents and tasks alone -/

/-- No task opens, no agent starts or ends, and what was said stays said. -/
structure Calm (before after : Core) : Prop where
  log : before.log <+: after.log
  procs : after.procs = before.procs
  opens : ∀ id, after.isOpen id → before.isOpen id

namespace Calm

theorem of_quiet (quiet : Quiet before after) : Calm before after :=
  ⟨prefix_of_murmurs quiet.log, quiet.procs, quiet.opens⟩

theorem trans (first : Calm before middle) (second : Calm middle after) : Calm before after :=
  ⟨first.log.trans second.log, second.procs.trans first.procs,
    fun id isOpen => first.opens id (second.opens id isOpen)⟩

theorem of_eq (log : before.log <+: after.log) (tasks : after.tasks = before.tasks)
    (procs : after.procs = before.procs) : Calm before after :=
  ⟨log, procs, fun id isOpen => by
    rw [Core.isOpen, Core.task, tasks] at isOpen
    exact isOpen⟩

theorem send {conn : Nat} {id : Json} {result : Except RpcError Json}
    (calm : Calm before core) : Calm before (core.send conn id result) := by
  rw [Core.send]
  split
  · exact calm.trans (of_eq (List.prefix_append core.log _) rfl rfl)
  · exact calm

theorem pendingReply (core : Core) (req : Nat) (result : Except RpcError Json) :
    Calm core (core.pendingReply req result) := by
  have erased : Calm core { core with pending := core.pending.erase req } :=
    of_eq List.prefix_rfl rfl rfl
  rw [Core.pendingReply]
  split
  · exact of_eq List.prefix_rfl rfl rfl
  · dsimp only
    split
    · exact erased.send
    · exact erased

theorem accounted (calm : Calm before after) (accounted : Accounted before) : Accounted after := by
  intro task isOpen
  rcases accounted task (calm.opens task isOpen) with running | told
  · exact .inl (calm.procs ▸ running)
  · exact .inr (reported_of_begins calm.log told)

variable [JsonText]

theorem served {surface : Surface} {conn : Nat} {request : Request} {outcome : Outcome}
    (served : Served host conn request before surface outcome after) : Calm before after := by
  cases served with
  | now quiet => exact of_quiet quiet
  | asked quiet => exact (of_quiet quiet).trans (of_eq (List.prefix_append _ _) rfl rfl)
  | held quiet fresh given => exact (of_quiet quiet).trans (of_eq List.prefix_rfl rfl rfl)
  | sent quiet answerable isOpen free reached =>
    rw [inferComplete, reached]
    exact (of_quiet quiet).trans (of_eq (List.prefix_append _ _) rfl rfl)

variable [Blake3]

theorem handle {msg : Msg} (routine : isRoutine msg = false)
    (notExit : ∀ task status, msg ≠ .procExit task status)
    (notProvision : ∀ message, msg ≠ .link message) : Calm core (handle settings core host msg) := by
  cases msg with
  | «open» conn surface =>
    rw [Core.handle]
    rcases openConn_cases core conn surface with refused | opened
    · rw [refused]
      exact of_eq (List.prefix_append core.log _) rfl rfl
    · rw [opened]
      exact of_eq List.prefix_rfl rfl rfl
  | line conn read =>
    rw [Core.handle, onLine]
    split
    · exact of_quiet (Quiet.refl core)
    · rename_i held found
      split
      · exact (of_quiet (Quiet.refl core)).send
      · rename_i request parsed
        rcases onRequest_eq core settings host conn held.surface request with
          ⟨outcome, after, served, rewritten⟩
        rw [rewritten]
        split
        · exact (Calm.served served).send
        · exact Calm.served served
  | closed conn => exact of_eq List.prefix_rfl rfl rfl
  | procExit task status => exact absurd rfl (notExit task status)
  | humanReply conn id result =>
    cases id with
    | none => exact of_quiet (Quiet.refl core)
    | some id => exact (of_quiet (Quiet.refl core)).send
  | inference id result =>
    rw [Core.handle, onInference]
    split
    · exact of_quiet (Quiet.refl core)
    · apply Calm.send
      exact of_eq (List.prefix_append core.log _) rfl rfl
  | link message => exact absurd rfl (notProvision message)
  | _ => cases routine

end Calm

theorem keeps_accounted : Keeps (fun _ => True) Accounted where
  quiet quiet accounted := (Calm.of_quiet quiet).accounted accounted
  reply req result accounted := (Calm.pendingReply _ req result).accounted accounted
  close := by
    intro id before after _ closes shut accounted task isOpen
    rw [closes.opens] at isOpen
    have apart : task ≠ id := by
      rintro rfl
      rw [shut] at isOpen
      cases isOpen
    rcases accounted task isOpen with running | told
    · exact .inl (closes.procs task apart running)
    · exact .inr (reported_of_begins (prefix_of_murmurs closes.log) told)

/-! ## Exits and launches -/

theorem mem_sendPolicyd {message : ToPolicyd} (takes : core.takes) :
    .policyd message ∈ (core.sendPolicyd message).2.log := by
  rw [Core.takes] at takes
  rw [sendPolicyd]
  split
  · rename_i down
    simp [down] at takes
  · rename_i channel up
    split
    · exact List.mem_append_right _ (List.mem_singleton_self _)
    · rename_i gone
      simp [up, gone] at takes

theorem reported_exited {task reason : String} (takes : core.takes) :
    (core.exited task reason).reported task :=
  have takes' : core.reqId.2.takes := takes
  List.any_eq_true.mpr ⟨_, mem_sendPolicyd takes', by simp⟩

/-- With launching enabled, the agent of a task that is held runs, or something failed. -/
theorem launch_cases {id : String} (launching : settings.launch = true)
    (held : (core.task id).isSome) :
    core.launch settings host id = (true, { core with procs := id :: core.procs.filter (· ≠ id) }) ∨
      core.launch settings host id = (false, core) ∧ (host.socket && host.started) = false := by
  have known : (core.task id).isNone = false := by
    rw [Option.isNone_eq_false_iff]
    exact held
  rw [launch, launching, known]
  cases host.socket with
  | false => exact .inr ⟨rfl, rfl⟩
  | true =>
    cases host.started with
    | false => exact .inr ⟨rfl, rfl⟩
    | true => exact .inl rfl

theorem accounted_provision {prov : Prov} (launching : settings.launch = true)
    (reaches : core.unstarted host prov → core.takes) (accounted : Accounted core) :
    Accounted (core.provision settings host prov) := by
  have calm {task reason : String} (core : Core) : Calm core (core.exited task reason) :=
    .of_quiet (quiet_exited core task reason)
  rw [provision]
  split
  · exact accounted
  rename_i unknown
  split
  · exact (calm core).accounted accounted
  rename_i wellFormed
  split
  · exact (calm core).accounted accounted
  rename_i written
  have fresh : core.task prov.task = none := by simpa using unknown
  have found (id : String) :
      ((core.event "task_started" (startedJson (core.provisioned host prov))).insertTask
        (core.provisioned host prov)).task id =
      if (core.provisioned host prov).id = id then some (core.provisioned host prov)
        else core.task id := task_insertTask fresh
  dsimp only
  generalize made : (core.event "task_started"
    (startedJson (core.provisioned host prov))).insertTask (core.provisioned host prov) = held
      at found ⊢
  have said : core.log <+: held.log := by
    rw [← made]
    exact prefix_of_murmurs (quiet_event core _ _).log
  have procs : held.procs = core.procs := by rw [← made]; rfl
  have link : held.link = core.link := by rw [← made]; rfl
  have named : (core.provisioned host prov).id = prov.task := rfl
  have opens (task : String) (isOpen : held.isOpen task) : task = prov.task ∨ core.isOpen task := by
    rw [Core.isOpen, found task, named] at isOpen
    split at isOpen
    · rename_i same
      exact .inl same.symm
    · exact .inr isOpen
  have kept (task : String) (other : core.isOpen task) : task ∈ core.procs ∨ held.reported task := by
    rcases accounted task other with running | told
    · exact .inl running
    · exact .inr (reported_of_begins said told)
  have isHeld : (held.task (core.provisioned host prov).id).isSome := by
    rw [found, if_pos rfl]
    rfl
  have launched : held.launch settings host (core.provisioned host prov).id =
      (true, { held with procs := (core.provisioned host prov).id ::
        held.procs.filter (· ≠ (core.provisioned host prov).id) }) ∨
    held.launch settings host (core.provisioned host prov).id = (false, held) ∧
      (host.socket && host.started) = false := launch_cases launching isHeld
  rcases launched with started | ⟨failed, cause⟩
  · rw [started]
    intro task isOpen
    rcases opens task isOpen with rfl | other
    · exact .inl (List.mem_cons_self ..)
    rcases kept task other with running | sent
    · by_cases same : task = prov.task
      · exact .inl (same ▸ List.mem_cons_self ..)
      · refine .inl (List.mem_cons_of_mem _ (List.mem_filter.mpr ⟨procs ▸ running, ?_⟩))
        simpa [named] using same
    · exact .inr sent
  · rw [failed]
    have takes : held.takes := by
      rw [Core.takes, link]
      apply reaches
      simp only [Bool.not_eq_true', Bool.not_eq_false] at wellFormed written
      rw [unstarted, fresh, cause, wellFormed, written]
      rfl
    intro task isOpen
    have before := (calm held).opens task isOpen
    rcases opens task before with rfl | other
    · exact .inr (reported_exited takes)
    · rcases kept task other with running | told
      · exact .inl ((calm held).procs ▸ procs ▸ running)
      · exact .inr (reported_of_begins (calm held).log told)

theorem accounted_procExit {task status : String} (reaches : core.isOpen task → core.takes)
    (accounted : Accounted core) [Blake3] [JsonText] :
    Accounted (handle settings core host (.procExit task status)) := by
  have ended : ∀ other, core.isOpen other → other ≠ task →
      other ∈ core.procs.filter (· ≠ task) ∨ core.reported other := by
    intro other isOpen apart
    rcases accounted other isOpen with running | sent
    · exact .inl (List.mem_filter.mpr ⟨running, by simpa using apart⟩)
    · exact .inr sent
  rw [handle]
  split
  · rename_i isOpen
    have calm := Calm.of_quiet
      (quiet_exited { core with procs := core.procs.filter (· ≠ task) } task status)
    intro other isOpen'
    by_cases same : other = task
    · rw [same]
      have takes : Core.takes { core with procs := core.procs.filter (· ≠ task) } :=
        reaches isOpen
      exact .inr (reported_exited takes)
    · rcases ended other (calm.opens other isOpen') same with running | told
      · exact .inl (calm.procs ▸ running)
      · exact .inr (reported_of_begins calm.log told)
  · rename_i shut
    intro other isOpen
    have apart : other ≠ task := by
      rintro rfl
      exact shut isOpen
    exact ended other isOpen apart

theorem accounted_step [Blake3] [JsonText] {moment : Moment} (launching : settings.launch = true)
    (reaches : core.Reaches moment) (accounted : Accounted core) :
    Accounted (core.step settings moment) := by
  rcases moment with ⟨host, msg⟩
  cases routine : isRoutine msg with
  | true => exact keeps_accounted.handle routine (fun _ _ => trivial) accounted
  | false =>
    cases msg with
    | procExit task status => exact accounted_procExit reaches accounted
    | link message =>
      cases message with
      | provision => exact accounted_provision launching reaches accounted
      | _ => cases routine
    | _ => exact (Calm.handle routine (by simp) (by simp)).accounted accounted

end Core

/-! ## Every run -/

section Runs

variable [Blake3] [JsonText] {settings : Config} {host : Host} {loaded : List Task}
  {past : List Moment}

/-- With the link up, `policyd` was told of every open task that has no agent. -/
def ExitsReported (settings : Config) (host : Host) (loaded : List Task) (past : List Moment) :
    Prop :=
  (after settings host loaded past).link.isSome → ∀ task,
    (after settings host loaded past).isOpen task →
    task ∉ (after settings host loaded past).procs → (after settings host loaded past).reported task

/-- Unless an exit finds the link down, no exit is lost. -/
theorem exits_reported (launching : settings.launch = true)
    (reaches : Throughout (fun past moment => (after settings host loaded past).Reaches moment)
      past) :
    ExitsReported settings host loaded past := by
  have accounted : (after settings host loaded past).Accounted := by
    induction past using List.reverseRecOn with
    | nil =>
      intro task isOpen
      have shut : (after settings host loaded []).isOpen task = false := Core.isOpen_new
      rw [shut] at isOpen
      cases isOpen
    | append_singleton past moment induction =>
      rcases throughout_snoc.mp reaches with ⟨before, now⟩
      rw [after_snoc]
      exact Core.accounted_step launching now (induction before)
  intro _ task isOpen ended
  exact (accounted task isOpen).resolve_left ended

end Runs

/-! ## An exit during an outage -/

/-- The link takes a task, and is down when its agent ends. -/
def outage : List Moment :=
  [.linkUp ⟨none⟩, provisionOf someTask, .linkDown, .procExit someTask "failed",
    .linkUp ⟨none⟩].map (ready 0, ·)

/-- The link is back, and the task is open without an agent: `policyd` does not know. -/
theorem exit_lost : ¬@ExitsReported startDigest unwritten settled (ready 0) [] outage := by
  intro reported
  have told := reported (by decide) someTask (by decide) (by decide)
  revert told
  decide

/-- The agent ends while the link is up. -/
theorem exit_reported :
    @ExitsReported startDigest unwritten settled (ready 0) []
      ([.linkUp ⟨none⟩, provisionOf someTask, .procExit someTask "failed"].map (ready 0, ·)) :=
  @exits_reported startDigest unwritten settled (ready 0) []
    ([.linkUp ⟨none⟩, provisionOf someTask, .procExit someTask "failed"].map (ready 0, ·)) rfl
    (by decide)

end EclipseOS.Agentd
