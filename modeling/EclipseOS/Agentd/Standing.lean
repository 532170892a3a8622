import EclipseOS.Agentd.Calls

/-! # What stands between messages

The tables of what waits agree with each other, with the counters and with the
connections. -/

namespace EclipseOS.Agentd

open Foundation PolicyEval

namespace Core

structure Standing (core : Core) : Prop where
  reqs : ∀ req held, core.pending.lookup req = some held → req < core.nextReq
  infers : ∀ id call, core.inferPending.lookup id = some call → id < core.nextInfer
  consoles : ∀ req held, core.pending.lookup req = some held →
    core.surface held.conn = some .console
  mcps : ∀ id call, core.inferPending.lookup id = some call →
    core.surface call.conn = some (.mcp call.task)
  inFlight : ∀ id call, core.inferPending.lookup id = some call →
    core.inferByTask.lookup call.task = some id
  byTask : ∀ task id, core.inferByTask.lookup task = some id →
    ∃ call, core.inferPending.lookup id = some call ∧ call.task = task

variable {core before middle after : Core} {host : Host} {settings : Config}

/-! ## Closing a task -/

theorem lookup_hangUp {id : String} {conn : Nat} {held : Conn} :
    (core.hangUp id).conns.lookup conn = some held ↔
      core.conns.lookup conn = some held ∧ held.surface ≠ .mcp id := by
  simp [hangUp]

theorem surface_eq_some {conn : Nat} {surface : Surface} :
    core.surface conn = some surface ↔
      ∃ held, core.conns.lookup conn = some held ∧ held.surface = surface := by
  simp [Core.surface]

theorem surface_hangUp {id : String} {conn : Nat} {surface : Surface} :
    (core.hangUp id).surface conn = some surface ↔
      core.surface conn = some surface ∧ surface ≠ .mcp id := by
  rw [surface_eq_some, surface_eq_some]
  constructor
  · rintro ⟨held, found, rfl⟩
    rcases lookup_hangUp.mp found with ⟨kept, apart⟩
    exact ⟨⟨held, kept, rfl⟩, apart⟩
  · rintro ⟨⟨held, found, rfl⟩, apart⟩
    exact ⟨held, lookup_hangUp.mpr ⟨found, apart⟩, rfl⟩

/-- A task that closes: nothing it says is waited for, and its entries and connections go. -/
structure Closes (id : String) (before after : Core) : Prop where
  log : Murmurs before after
  surface : ∀ conn surface, after.surface conn = some surface ↔
    before.surface conn = some surface ∧ surface ≠ .mcp id
  pending : after.pending = Table.retain (fun _ held => held.task ≠ id) before.pending
  inferPending : after.inferPending = Table.retain (fun _ call => call.task ≠ id)
    before.inferPending
  inferByTask : after.inferByTask = before.inferByTask.erase id
  nextInfer : after.nextInfer = before.nextInfer
  nextReq : after.nextReq = before.nextReq
  procs : ∀ other, other ≠ id → other ∈ before.procs → other ∈ after.procs
  opens : ∀ other, after.isOpen other = before.isOpen other

theorem murmurs_hangUp (core : Core) (id : String) : Murmurs core (core.hangUp id) := by
  refine ⟨_, rfl, ?_⟩
  intro out member
  rcases List.mem_map.mp member with ⟨entry, -, rfl⟩
  rfl

theorem murmurs_stopAgent (core : Core) (id : String) : Murmurs core (core.stopAgent id) := by
  rw [stopAgent]
  split
  · exact ⟨_, rfl, by simp [Out.isQuiet]⟩
  · exact .of_eq rfl

theorem mem_stopAgent {id other : String} (apart : other ≠ id) (member : other ∈ core.procs) :
    other ∈ (core.stopAgent id).procs := by
  rw [stopAgent]
  split
  · exact List.mem_filter.mpr ⟨member, by simpa using apart⟩
  · exact member

theorem murmurs_finishClose (core : Core) (host : Host) (id reason : String) :
    Murmurs core (core.finishClose host id reason) := by
  rw [finishClose]
  refine .trans ?_ (quiet_event _ _ _).log
  have gone := (murmurs_stopAgent core id).trans (murmurs_hangUp _ id)
  split
  · exact gone.trans ⟨_, rfl, by simp [Out.isQuiet]⟩
  · exact gone.trans (.of_eq rfl)

theorem finishClose_eq (core : Core) (host : Host) (id reason : String) :
    ∃ log, core.finishClose host id reason = { core with
      log := log
      conns := (core.hangUp id).conns
      procs := (core.stopAgent id).procs
      pending := Table.retain (fun _ held => held.task ≠ id) core.pending
      inferPending := Table.retain (fun _ call => call.task ≠ id) core.inferPending
      inferByTask := core.inferByTask.erase id } := by
  rw [finishClose]
  by_cases running : id ∈ core.procs
  · rw [stopAgent, if_pos running]
    cases host.router <;> exact ⟨_, rfl⟩
  · rw [stopAgent, if_neg running]
    cases host.router <;> exact ⟨_, rfl⟩

theorem closes_finishClose (core : Core) (host : Host) (id reason : String) :
    Closes id core (core.finishClose host id reason) := by
  have logged := murmurs_finishClose core host id reason
  rcases finishClose_eq core host id reason with ⟨log, shape⟩
  rw [shape] at logged ⊢
  exact {
    log := logged
    surface _ _ := surface_hangUp
    pending := rfl
    inferPending := rfl
    inferByTask := rfl
    nextInfer := rfl
    nextReq := rfl
    procs _ := mem_stopAgent
    opens _ := rfl }

/-! ## A task's state -/

theorem taskState_cases (core : Core) (host : Host) (id state reason : String) :
    Quiet core (core.taskState host id state reason) ∨
      core.isOpen id ∧ state = "closed" ∧ ∃ middle, Quiet core middle ∧ middle.isOpen id = false ∧
        Closes id middle (core.taskState host id state reason) := by
  rw [taskState]
  split
  · exact .inl (Quiet.refl core)
  split
  · exact .inl (Quiet.refl core)
  rename_i known task found
  have named := id_of_task found
  subst named
  split
  · exact .inl (Quiet.refl core)
  rename_i changes
  have notClosed : task.isClosed = false := by
    simp only [Bool.or_eq_true, not_or, Bool.not_eq_true] at changes
    exact changes.1
  have isOpen : core.isOpen task.id := by
    rw [Core.isOpen, found, Option.any_some, notClosed]
    rfl
  by_cases closing : state = "closed"
  · right
    refine ⟨isOpen, closing, ?_⟩
    have written : ∀ changed : Task, changed.id = task.id → changed.isClosed →
        Quiet core (core.setTask changed) ∧ (core.setTask changed).isOpen task.id = false := by
      intro changed named closed
      refine ⟨quiet_setTask (by rw [named]; exact found) fun _ => closed, ?_⟩
      rw [Core.isOpen, task_setTask, found, Option.map_some, if_pos named.symm, Option.any_some,
        closed]
      rfl
    simp only [closing, if_true]
    rcases written { task with
      state := "closed"
      reason := reason
      closedMs := some host.now
      awaitingReply := false } rfl (by simp [Task.isClosed]) with ⟨calm, shut⟩
    refine ⟨_, ?_, ?_, closes_finishClose _ host task.id reason⟩
    · split
      · exact calm.event.awaitingEvent
      · exact calm.event
    · split
      · exact shut
      · exact shut
  · left
    simp only [closing, if_false]
    apply Quiet.event
    exact quiet_setTask found fun closed => by simp [notClosed] at closed

/-! ## Messages that ask nothing -/

def closes (core : Core) : Msg → List String
  | .link (.taskState task "closed" _) => if core.isOpen task then [task] else []
  | .link (.revoked principal) =>
    (core.tasks.filter fun task => task.principal = principal && !task.isClosed).map Task.id
  | _ => []

/-- What is kept by whatever opens nothing and asks nothing. -/
structure Keeps (closing : String → Prop) (holds : Core → Prop) : Prop where
  quiet : ∀ {before after}, Quiet before after → holds before → holds after
  reply : ∀ {core} req result, holds core → holds (core.pendingReply req result)
  close : ∀ {id before after}, closing id → Closes id before after → before.isOpen id = false →
    holds before → holds after

/-- Everything but calls, provisions, exits, answers and the ends of connections. -/
def isRoutine : Msg → Bool
  | .link (.provision ..) => false
  | .linkUp _ | .linkDown | .link _ | .decisions _ | .tick => true
  | _ => false

theorem quiet_report (tasks : List String) (core : Core) : Quiet core (report tasks core) := by
  induction tasks generalizing core with
  | nil => exact { Quiet.refl core with }
  | cons task rest induction =>
    rw [report]
    have sent := (quiet_reqId core).trans
      (quiet_sendPolicyd core.reqId.2 (.exited (UInt64.ofNat core.reqId.1) task "failed"))
    split
    rename_i req middle drawn
    rw [drawn] at sent
    split
    · rename_i after outcome
      rw [outcome] at sent
      exact sent.trans (induction after)
    · rename_i after outcome
      rw [outcome] at sent
      exact { sent with }

theorem quiet_linkUp (core : Core) (channel : Channel) : Quiet core (core.linkUp channel) := by
  rw [linkUp]
  have queued := Quiet.foldl quiet_sendAuditBytes core.auditQ
    { core with link := some channel, auditQ := [] }
  have cleared : Quiet core { core with link := some channel, auditQ := [] } :=
    { Quiet.refl core with }
  exact (cleared.trans queued).trans (quiet_report _ _)

theorem quiet_drained (core : Core) (req : Nat) : Quiet core (core.drained req) := by
  rw [drained]
  split
  · split
    · rename_i task found
      have named := id_of_task found
      subst named
      exact quiet_setTask found fun closed => closed
    · exact Quiet.refl core
  · exact Quiet.refl core

namespace Keeps

variable {closing : String → Prop} {holds : Core → Prop} {msg : Msg}

theorem foldl_reply (keeps : Keeps closing holds) (result : Except RpcError Json)
    (reqs : List Nat) (held : holds core) :
    holds (reqs.foldl (fun core req => core.pendingReply req result) core) := by
  induction reqs generalizing core with
  | nil => exact held
  | cons req reqs induction => exact induction (keeps.reply req result held)

theorem taskState (keeps : Keeps closing holds) {id state reason : String}
    (allowed : state = "closed" → core.isOpen id → closing id) (held : holds core) :
    holds (core.taskState host id state reason) := by
  rcases taskState_cases core host id state reason with quiet |
    ⟨isOpen, closed, middle, quiet, shut, closes⟩
  · exact keeps.quiet quiet held
  · exact keeps.close (allowed closed isOpen) closes shut (keeps.quiet quiet held)

theorem revoked (keeps : Keeps closing holds) (ids : List String)
    (allowed : ∀ id ∈ ids, closing id) (held : holds core) :
    holds (ids.foldl (fun core id => core.taskState host id "closed" "revoked") core) := by
  induction ids generalizing core with
  | nil => exact held
  | cons id ids induction =>
    exact induction (fun other member => allowed other (List.mem_cons_of_mem _ member))
      (keeps.taskState (fun _ _ => allowed id (List.mem_cons_self ..)) held)

variable [Blake3] [JsonText]

/-- Such a message keeps what each change keeps, if the tasks it closes may be closed. -/
theorem handle (keeps : Keeps closing holds) (routine : isRoutine msg)
    (allowed : ∀ id ∈ core.closes msg, closing id) (held : holds core) :
    holds (Core.handle settings core host msg) := by
  cases msg with
  | linkUp channel => exact keeps.quiet (quiet_linkUp core channel) held
  | linkDown =>
    exact keeps.foldl_reply _ _ (keeps.quiet { Quiet.refl core with } held)
  | decisions count =>
    rw [Core.handle]
    split
    · exact held
    · exact keeps.quiet (Quiet.event { Quiet.refl core with }) held
  | tick =>
    have answered : holds (core.timeOut host) :=
      keeps.foldl_reply (.error .unavailable) (core.late host) held
    rw [Core.handle, tick]
    split
    · have noted : Quiet (core.timeOut host) { core.timeOut host with lastSweepMs := host.now } :=
        { Quiet.refl _ with }
      exact keeps.quiet (noted.trans (quiet_sweep _ settings host)) answered
    · exact answered
  | link message =>
    cases message with
    | provision => cases routine
    | taskState task state reason =>
      apply keeps.taskState _ held
      rintro rfl isOpen
      apply allowed
      rw [closes, if_pos isOpen]
      exact List.mem_singleton_self task
    | revoked principal => exact keeps.revoked _ allowed held
    | done req =>
      exact keeps.reply _ _ (keeps.quiet (quiet_drained core _) held)
    | refused req reason => exact keeps.reply _ _ held
    | _ => exact held
  | _ => cases routine

end Keeps

/-! ## Provisions and exits -/

theorem still_launch (core : Core) (settings : Config) (host : Host) (id : String) :
    Still core (core.launch settings host id).2 := by
  rw [launch]
  split
  · exact (Quiet.refl core).toStill
  split
  · exact (Quiet.refl core).toStill
  split
  · exact (Quiet.refl core).toStill
  · exact { Quiet.refl core with }

theorem still_provision (core : Core) (settings : Config) (host : Host) (prov : Prov) :
    Still core (core.provision settings host prov) := by
  rw [provision]
  split
  · exact (Quiet.refl core).toStill
  split
  · exact (quiet_exited core _ _).toStill
  split
  · exact (quiet_exited core _ _).toStill
  have started := quiet_event core "task_started" (startedJson (core.provisioned host prov))
  have inserted : Still core ((core.event "task_started"
      (startedJson (core.provisioned host prov))).insertTask (core.provisioned host prov)) :=
    { started with }
  have launched := inserted.trans (still_launch _ settings host (core.provisioned host prov).id)
  dsimp only
  split
  · rename_i after outcome
    rw [outcome] at launched
    exact launched
  · rename_i after outcome
    rw [outcome] at launched
    exact launched.trans (quiet_exited after _ _).toStill

theorem openConn_cases (core : Core) (conn : Nat) (surface : Surface) :
    core.openConn conn surface = core.emit (.hangUp conn) ∨
      core.openConn conn surface = { core with conns := core.conns.insert conn ⟨surface, false⟩ } :=
  ite_eq_or_eq _ _ _

/-! ## The tables stay in agreement -/

namespace Standing

theorem of_still (still : Still before after) (standing : Standing before) : Standing after where
  reqs req held waits := (standing.reqs req held (still.pending ▸ waits)).trans_le still.nextReq
  infers id call waits :=
    (standing.infers id call (still.inferPending ▸ waits)).trans_le still.nextInfer
  consoles req held waits := by
    rw [still.surface]
    exact standing.consoles req held (still.pending ▸ waits)
  mcps id call waits := by
    rw [still.surface]
    exact standing.mcps id call (still.inferPending ▸ waits)
  inFlight id call waits := by
    rw [still.inferByTask]
    exact standing.inFlight id call (still.inferPending ▸ waits)
  byTask task id busy := by
    rw [still.inferPending]
    exact standing.byTask task id (still.inferByTask ▸ busy)

theorem of_send (conn : Nat) (id : Json) (result : Except RpcError Json)
    (standing : Standing core) : Standing (core.send conn id result) := by
  rw [send]
  split
  · exact { standing with }
  · exact standing

theorem pendingReply (req : Nat) (result : Except RpcError Json) (standing : Standing core) :
    Standing (core.pendingReply req result) := by
  have erased : Standing { core with pending := core.pending.erase req } :=
    { standing with
      reqs := fun other held waits =>
        standing.reqs other held (Table.lookup_erase_eq_some.mp waits).2
      consoles := fun other held waits =>
        standing.consoles other held (Table.lookup_erase_eq_some.mp waits).2 }
  rw [Core.pendingReply]
  split
  · exact standing
  · dsimp only
    split
    · exact erased.of_send _ _ _
    · exact erased

theorem closes {id : String} (closes : Closes id before after) (standing : Standing before) :
    Standing after where
  reqs req held waits := by
    rw [closes.pending, Table.lookup_retain] at waits
    rw [closes.nextReq]
    exact standing.reqs req held waits.1
  infers other call waits := by
    rw [closes.inferPending, Table.lookup_retain] at waits
    rw [closes.nextInfer]
    exact standing.infers other call waits.1
  consoles req held waits := by
    rw [closes.pending, Table.lookup_retain] at waits
    exact (closes.surface _ _).mpr ⟨standing.consoles req held waits.1, by simp⟩
  mcps other call waits := by
    rw [closes.inferPending, Table.lookup_retain] at waits
    have apart : call.task ≠ id := by simpa using waits.2
    exact (closes.surface _ _).mpr ⟨standing.mcps other call waits.1, by simpa using apart⟩
  inFlight other call waits := by
    rw [closes.inferPending, Table.lookup_retain] at waits
    have apart : call.task ≠ id := by simpa using waits.2
    rw [closes.inferByTask, Table.lookup_erase_eq_some]
    exact ⟨apart, standing.inFlight other call waits.1⟩
  byTask task other busy := by
    rw [closes.inferByTask, Table.lookup_erase_eq_some] at busy
    rcases standing.byTask task other busy.2 with ⟨call, waits, named⟩
    refine ⟨call, ?_, named⟩
    rw [closes.inferPending, Table.lookup_retain]
    exact ⟨waits, by simpa [named] using busy.1⟩

theorem keeps : Keeps (fun _ => True) Standing where
  quiet quiet standing := standing.of_still quiet.toStill
  reply req result standing := standing.pendingReply req result
  close _ closed _ standing := standing.closes closed

theorem openConn {conn : Nat} {surface : Surface} (fresh : core.surface conn = none)
    (standing : Standing core) : Standing (core.openConn conn surface) := by
  have kept : ∀ other kind, core.surface other = some kind →
      Core.surface { core with conns := core.conns.insert conn ⟨surface, false⟩ } other =
        some kind := by
    intro other kind held
    have apart : other ≠ conn := by
      rintro rfl
      simp [fresh] at held
    rw [Core.surface, AList.lookup_insert_ne apart]
    exact held
  rcases openConn_cases core conn surface with refused | opened
  · rw [refused]
    exact { standing with }
  · rw [opened]
    exact { standing with
      consoles := fun req held waits => kept _ _ (standing.consoles req held waits)
      mcps := fun id call waits => kept _ _ (standing.mcps id call waits) }

theorem closeConn (conn : Nat) (standing : Standing core) : Standing (core.closeConn conn) where
  reqs req held waits := standing.reqs req held (Table.lookup_retain.mp waits).1
  infers id call waits := standing.infers id call (Table.lookup_retain.mp waits).1
  consoles req held waits := by
    rcases Table.lookup_retain.mp waits with ⟨before, apart⟩
    rw [Core.surface, Core.closeConn, AList.lookup_erase_ne (by simpa using apart)]
    exact standing.consoles req held before
  mcps id call waits := by
    rcases Table.lookup_retain.mp waits with ⟨before, apart⟩
    rw [Core.surface, Core.closeConn, AList.lookup_erase_ne (by simpa using apart)]
    exact standing.mcps id call before
  inFlight id call waits := by
    rw [Core.closeConn, Table.lookup_retain]
    exact ⟨standing.inFlight id call (Table.lookup_retain.mp waits).1, by
      rw [Option.isSome_iff_exists]
      exact ⟨call, waits⟩⟩
  byTask task id busy := by
    rcases Table.lookup_retain.mp busy with ⟨before, kept⟩
    rcases standing.byTask task id before with ⟨call, waits, named⟩
    rcases Option.isSome_iff_exists.mp kept with ⟨other, left⟩
    refine ⟨call, ?_, named⟩
    have same := (Table.lookup_retain.mp left).1
    rw [waits] at same
    cases same
    exact left

variable [JsonText] {conn : Nat} {request : Request}

theorem inferComplete {task : Task} {decl : Inference} {mcpId : Json} {args : Router.Args}
    (on : core.surface conn = some (.mcp task.id))
    (free : core.inferByTask.lookup task.id = none) (reached : host.router = true)
    (standing : Standing core) :
    Standing (core.inferComplete host conn task decl mcpId args).2 := by
  rw [Core.inferComplete, reached]
  exact { standing with
    infers := by
      intro id call waits
      rcases Table.lookup_insert_eq_some.mp waits with ⟨rfl, -⟩ | ⟨-, before⟩
      · exact Nat.lt_succ_self _
      · exact (standing.infers id call before).trans (Nat.lt_succ_self _)
    mcps := by
      intro id call waits
      rcases Table.lookup_insert_eq_some.mp waits with ⟨-, rfl⟩ | ⟨-, before⟩
      · exact on
      · exact standing.mcps id call before
    inFlight := by
      intro id call waits
      apply Table.lookup_insert_eq_some.mpr
      rcases Table.lookup_insert_eq_some.mp waits with ⟨rfl, rfl⟩ | ⟨-, before⟩
      · exact .inl ⟨rfl, rfl⟩
      · have busy := standing.inFlight id call before
        refine .inr ⟨?_, busy⟩
        intro same
        rw [same, free] at busy
        cases busy
    byTask := by
      intro named id busy
      rcases Table.lookup_insert_eq_some.mp busy with ⟨rfl, rfl⟩ | ⟨-, before⟩
      · exact ⟨_, Table.lookup_insert_eq_some.mpr (.inl ⟨rfl, rfl⟩), rfl⟩
      · rcases standing.byTask named id before with ⟨call, waits, named⟩
        refine ⟨call, Table.lookup_insert_eq_some.mpr (.inr ⟨?_, waits⟩), named⟩
        exact (standing.infers id call waits).ne }

theorem onInference (id : Nat) (result : Except Failure Completion) (standing : Standing core) :
    Standing (core.onInference host id result) := by
  rw [Core.onInference]
  split
  · exact standing
  · rename_i call waits
    apply of_send
    exact { standing with
      infers := fun other held kept =>
        standing.infers other held (Table.lookup_erase_eq_some.mp kept).2
      mcps := fun other held kept =>
        standing.mcps other held (Table.lookup_erase_eq_some.mp kept).2
      inFlight := by
        intro other held kept
        rcases Table.lookup_erase_eq_some.mp kept with ⟨apart, before⟩
        have busy := standing.inFlight other held before
        refine Table.lookup_erase_eq_some.mpr ⟨?_, busy⟩
        intro same
        rw [same, standing.inFlight id call waits] at busy
        exact apart (Option.some.inj busy).symm
      byTask := by
        intro task other busy
        rcases Table.lookup_erase_eq_some.mp busy with ⟨apart, before⟩
        rcases standing.byTask task other before with ⟨held, kept, named⟩
        refine ⟨held, Table.lookup_erase_eq_some.mpr ⟨?_, kept⟩, named⟩
        rintro rfl
        rw [waits] at kept
        cases kept
        exact apart named.symm }

theorem served {surface : Surface} {outcome : Outcome} (on : core.surface conn = some surface)
    (served : Served host conn request core surface outcome after) (standing : Standing core) :
    Standing after := by
  cases served with
  | now quiet => exact standing.of_still quiet.toStill
  | asked quiet => exact { standing.of_still quiet.toStill with }
  | held quiet fresh given =>
    have before := standing.of_still quiet.toStill
    exact { before with
      reqs := by
        intro other held waits
        rcases Table.lookup_insert_eq_some.mp waits with ⟨rfl, -⟩ | ⟨-, waits⟩
        · exact given
        · exact before.reqs other held waits
      consoles := by
        intro other held waits
        rcases Table.lookup_insert_eq_some.mp waits with ⟨-, rfl⟩ | ⟨-, waits⟩
        · exact (quiet.surface conn).trans on
        · exact before.consoles other held waits }
  | sent quiet answerable isOpen free reached =>
    exact (standing.of_still quiet.toStill).inferComplete ((quiet.surface conn).trans on) free
      reached

end Standing

/-! ## One message -/

variable {conn : Nat}

theorem prefix_of_murmurs (murmurs : Murmurs before after) : before.log <+: after.log := by
  rcases murmurs with ⟨added, extended, -⟩
  rw [extended]
  exact List.prefix_append before.log added

theorem prefix_send {said : List Out} {id : Json} {result : Except RpcError Json}
    (kept : said <+: core.log) : said <+: (core.send conn id result).log := by
  rw [send]
  split
  · exact kept.trans (List.prefix_append core.log _)
  · exact kept

theorem surface_send {other : Nat} {named : Json} {result : Except RpcError Json} :
    (core.send other named result).surface conn = core.surface conn := by
  rw [send]
  split <;> rfl

variable [JsonText]

theorem surface_served {surface : Surface} {other : Nat} {request : Request} {outcome : Outcome}
    (served : Served host other request before surface outcome after) (asked : Nat) :
    after.surface asked = before.surface asked := by
  cases served with
  | now quiet => exact quiet.surface asked
  | asked quiet => exact quiet.surface asked
  | held quiet fresh given => exact quiet.surface asked
  | sent quiet answerable isOpen free reached =>
    rw [inferComplete, reached]
    exact quiet.surface asked

variable [Blake3]

theorem onRequest_eq (core : Core) (settings : Config) (host : Host) (conn : Nat)
    (surface : Surface) (request : Request) :
    ∃ outcome after, Served host conn request core surface outcome after ∧
      core.onRequest settings host conn surface request =
        match request.id, outcome with
        | some id, .now result => after.send conn id result
        | _, _ => after := by
  cases surface with
  | console => exact ⟨_, _, served_consoleCall, rfl⟩
  | mcp task => exact ⟨_, _, served_mcpLine, rfl⟩

theorem standing_onLine {conn : Nat} {read : Option Json} (standing : Standing core) :
    Standing (core.onLine settings host conn read) := by
  rw [onLine]
  split
  · exact standing
  · rename_i held found
    split
    · exact standing.of_send _ _ _
    · rename_i request parsed
      have on : core.surface conn = some held.surface := by rw [surface, found, Option.map_some]
      rcases onRequest_eq core settings host conn held.surface request with
        ⟨outcome, after, served, rewritten⟩
      rw [rewritten]
      have stands := standing.served on served
      split
      · exact stands.of_send _ _ _
      · exact stands

theorem standing_handle {msg : Msg}
    (fresh : ∀ conn surface, msg = .open conn surface → core.surface conn = none)
    (standing : Standing core) : Standing (handle settings core host msg) := by
  by_cases routine : isRoutine msg
  · exact Standing.keeps.handle routine (fun _ _ => trivial) standing
  cases msg with
  | «open» conn surface => exact standing.openConn (fresh conn surface rfl)
  | line conn read => exact standing_onLine standing
  | closed conn => exact standing.closeConn conn
  | procExit task status =>
    have ended : Standing { core with procs := core.procs.filter (· ≠ task) } :=
      { standing with }
    rw [handle]
    split
    · exact ended.of_still (quiet_exited _ _ _).toStill
    · exact ended
  | humanReply conn id result =>
    cases id with
    | none => exact standing
    | some id => exact standing.of_send conn id result
  | inference id result => exact standing.onInference id result
  | link message =>
    cases message with
    | provision => exact standing.of_still (still_provision core settings host _)
    | _ => exact absurd rfl routine
  | _ => exact absurd rfl routine

theorem surface_handle {msg : Msg} (opens : ∀ conn surface, msg ≠ .open conn surface)
    (conn : Nat) (kind : Surface)
    (found : (handle settings core host msg).surface conn = some kind) :
    core.surface conn = some kind := by
  have keeps : Keeps (fun _ => True) fun later =>
      ∀ kind, later.surface conn = some kind → core.surface conn = some kind := {
    quiet := fun quiet kept kind found => kept kind (quiet.surface conn ▸ found)
    reply := by
      intro later req result kept kind found
      apply kept
      rw [pendingReply] at found
      split at found
      · exact found
      · dsimp only at found
        split at found
        · rwa [surface_send] at found
        · exact found
    close := fun _ closes _ kept kind found => kept kind ((closes.surface conn kind).mp found).1 }
  by_cases routine : isRoutine msg
  · exact keeps.handle routine (fun _ _ => trivial) (fun _ found => found) kind found
  cases msg with
  | «open» conn surface => exact absurd rfl (opens conn surface)
  | line other read =>
    rw [handle, onLine] at found
    split at found
    · exact found
    · rename_i held open'
      split at found
      · rwa [surface_send] at found
      · rename_i request parsed
        rcases onRequest_eq core settings host other held.surface request with
          ⟨outcome, after, served, rewritten⟩
        rw [rewritten] at found
        rw [← surface_served served]
        split at found
        · rwa [surface_send] at found
        · exact found
  | closed gone =>
    rw [surface_eq_some] at found ⊢
    rcases found with ⟨held, found, rfl⟩
    exact ⟨held, (Table.lookup_erase_eq_some.mp found).2, rfl⟩
  | procExit task status =>
    rw [handle] at found
    split at found
    · rw [(quiet_exited _ _ _).surface] at found
      exact found
    · exact found
  | humanReply other id result =>
    cases id with
    | none => exact found
    | some id =>
      rw [handle, surface_send] at found
      exact found
  | inference id result =>
    rw [handle, onInference] at found
    split at found
    · exact found
    · rw [surface_send] at found
      exact found
  | link message =>
    cases message with
    | provision => exact (still_provision core settings host _).surface conn ▸ found
    | _ => exact absurd rfl routine
  | _ => exact absurd rfl routine

theorem prefix_served {surface : Surface} {request : Request} {outcome : Outcome}
    (served : Served host conn request before surface outcome after) :
    before.log <+: after.log := by
  cases served with
  | now quiet => exact prefix_of_murmurs quiet.log
  | asked quiet => exact (prefix_of_murmurs quiet.log).trans (List.prefix_append _ _)
  | held quiet fresh given => exact prefix_of_murmurs quiet.log
  | sent quiet answerable isOpen free reached =>
    rw [inferComplete, reached]
    exact (prefix_of_murmurs quiet.log).trans (List.prefix_append _ _)

theorem prefix_handle (core : Core) (settings : Config) (host : Host) (msg : Msg) :
    core.log <+: (handle settings core host msg).log := by
  have keeps : Keeps (fun _ => True) fun later => core.log <+: later.log := {
    quiet := fun quiet kept => kept.trans (prefix_of_murmurs quiet.log)
    reply := by
      intro later req result kept
      rw [pendingReply]
      split
      · exact kept
      · dsimp only
        split
        · exact prefix_send kept
        · exact kept
    close := fun _ closes _ kept => kept.trans (prefix_of_murmurs closes.log) }
  by_cases routine : isRoutine msg
  · exact keeps.handle routine (fun _ _ => trivial) List.prefix_rfl
  cases msg with
  | «open» conn surface =>
    rw [handle]
    rcases openConn_cases core conn surface with refused | opened
    · rw [refused]
      exact List.prefix_append core.log _
    · rw [opened]
  | line conn read =>
    rw [handle, onLine]
    split
    · exact List.prefix_rfl
    · rename_i held found
      split
      · exact prefix_send List.prefix_rfl
      · rename_i request parsed
        rcases onRequest_eq core settings host conn held.surface request with
          ⟨outcome, after, served, rewritten⟩
        rw [rewritten]
        split
        · exact prefix_send (prefix_served served)
        · exact prefix_served served
  | closed conn => exact List.prefix_rfl
  | procExit task status =>
    rw [handle]
    split
    · exact prefix_of_murmurs (quiet_exited _ _ _).log
    · exact List.prefix_rfl
  | humanReply conn id result =>
    cases id with
    | none => exact List.prefix_rfl
    | some id => exact prefix_send List.prefix_rfl
  | inference id result =>
    rw [handle, onInference]
    split
    · exact List.prefix_rfl
    · exact prefix_send (List.prefix_append core.log _)
  | link message =>
    cases message with
    | provision => exact prefix_of_murmurs (still_provision core settings host _).log
    | _ => exact absurd rfl routine
  | _ => exact absurd rfl routine

end Core

end EclipseOS.Agentd
