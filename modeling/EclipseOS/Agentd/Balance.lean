import EclipseOS.Agentd.Standing

/-! # Every request is accounted for

A request with an id is answered, or waits in one of the tables, or a helper thread was
started for it. What is owed on a connection is the sum of these; one message adds what
it asks and takes nothing away while the connection is open. -/

namespace EclipseOS.Agentd

open Foundation PolicyEval

/-- A reply on the connection to a request of this id. -/
def Out.answers (conn : Nat) (id : Json) : Out → Bool
  | .reply other named _ => other = conn && named = id
  | _ => false

/-- A helper thread for a request of this id on the connection. -/
def Out.asksFor (conn : Nat) (id : Json) : Out → Bool
  | .ask other named _ => other = conn && named = some id
  | _ => false

/-- Whether a line is a request with this id. A malformed one is answered under the id
it is found to have. -/
def asksWith (id : Json) (read : Option Json) : Bool :=
  match parse read with
  | .req request => request.id = some id
  | .reply named _ => named = id

namespace Msg

def asks (conn : Nat) (id : Json) : Msg → Bool
  | .line other read => other = conn && asksWith id read
  | _ => false

/-- A helper thread's answer to a request of this id on the connection. -/
def tells (conn : Nat) (id : Json) : Msg → Bool
  | .humanReply other named _ => other = conn && named = some id
  | _ => false

end Msg

def Outcome.isDeferred : Outcome → Bool
  | .now _ => false
  | .deferred => true

namespace Core

variable {core before middle after : Core} {host : Host} {settings : Config}
  {conn : Nat} {id : Json}

/-- How often `policyd` has to answer a request of this id on the connection. -/
def waiting (core : Core) (conn : Nat) (id : Json) : Nat :=
  Table.count (fun _ held => held.conn = conn && held.id = some id) core.pending

/-- How often the router has to answer a request of this id on the connection. -/
def completing (core : Core) (conn : Nat) (id : Json) : Nat :=
  Table.count (fun _ call => call.conn = conn && call.mcpId = id) core.inferPending

def replied (core : Core) (conn : Nat) (id : Json) : Nat :=
  core.log.countP (Out.answers conn id)

/-- How many helper threads were started for requests of this id on the connection. -/
def forwarded (core : Core) (conn : Nat) (id : Json) : Nat :=
  core.log.countP (Out.asksFor conn id)

def owed (core : Core) (conn : Nat) (id : Json) : Nat :=
  core.replied conn id + core.forwarded conn id + core.waiting conn id + core.completing conn id

/-! ## What changes what is owed -/

theorem counts_of_murmurs {test : Out → Bool}
    (loud : ∀ out, test out = true → out.isQuiet = false) (murmurs : Murmurs before after) :
    after.log.countP test = before.log.countP test := by
  rcases murmurs with ⟨added, extended, quiet⟩
  rw [extended, List.countP_append, Nat.add_eq_left, List.countP_eq_zero]
  intro out member passes
  have calm := quiet out member
  rw [loud out passes] at calm
  cases calm

theorem answers_loud {out : Out} (answers : out.answers conn id = true) : out.isQuiet = false := by
  cases out <;> first | rfl | cases answers

theorem asksFor_loud {out : Out} (asks : out.asksFor conn id = true) : out.isQuiet = false := by
  cases out <;> first | rfl | cases asks

theorem owed_still (still : Still before after) : after.owed conn id = before.owed conn id := by
  rw [owed, owed, replied, replied, counts_of_murmurs (fun _ => answers_loud) still.log, forwarded,
    forwarded, counts_of_murmurs (fun _ => asksFor_loud) still.log, waiting, waiting, completing,
    completing, still.pending, still.inferPending]

theorem owed_send {other : Nat} {named : Json} {result : Except RpcError Json} :
    (core.send other named result).owed conn id = core.owed conn id +
      if other = conn ∧ named = id ∧ (core.surface other).isSome then 1 else 0 := by
  rw [send, Core.surface]
  split
  · rename_i held found
    have counted : (core.emit (.reply other named result)).owed conn id = core.owed conn id +
        if other = conn ∧ named = id then 1 else 0 := by
      simp only [owed, replied, forwarded, waiting, completing, emit, List.countP_append,
        List.countP_singleton, Out.answers, Out.asksFor, Bool.and_eq_true, decide_eq_true_eq,
        Bool.false_eq_true, if_false]
      omega
    simpa [found] using counted
  · rename_i found
    simp [found]

/-- What is owed on a connection does not grow, and stays while the connection is open. -/
structure Kept (conn : Nat) (id : Json) (before after : Core) : Prop where
  surface : ∀ other kind, after.surface other = some kind → before.surface other = some kind
  atMost : after.owed conn id ≤ before.owed conn id
  same : (after.surface conn).isSome → after.owed conn id = before.owed conn id

namespace Kept

theorem of_still (still : Still before after) : Kept conn id before after where
  surface other _ held := still.surface other ▸ held
  atMost := (owed_still still).le
  same _ := owed_still still

theorem trans (first : Kept conn id before middle) (second : Kept conn id middle after) :
    Kept conn id before after where
  surface other kind held := first.surface other kind (second.surface other kind held)
  atMost := second.atMost.trans first.atMost
  same isOpen := by
    rw [second.same isOpen]
    apply first.same
    rcases Option.isSome_iff_exists.mp isOpen with ⟨kind, held⟩
    rw [second.surface conn kind held]
    rfl

end Kept

theorem kept_answered {other : Nat} {named : Json} {result : Except RpcError Json}
    (surface : ∀ other, middle.surface other = before.surface other)
    (left : before.owed conn id = middle.owed conn id +
      if other = conn ∧ named = id then 1 else 0) :
    Kept conn id before (middle.send other named result) := by
  have sent : (middle.send other named result).owed conn id = middle.owed conn id +
      if other = conn ∧ named = id ∧ (middle.surface other).isSome then 1 else 0 := owed_send
  exact {
    surface := fun asked _ => by
      rw [surface_send, surface]
      exact fun found => found
    atMost := by
      rw [sent, left]
      by_cases ours : other = conn ∧ named = id
      · rw [if_pos ours]
        split <;> omega
      · rw [if_neg ours, if_neg fun all => ours ⟨all.1, all.2.1⟩]
    same := by
      rw [surface_send]
      intro isOpen
      rw [sent, left]
      by_cases ours : other = conn ∧ named = id
      · rw [if_pos ours, if_pos ⟨ours.1, ours.2, ours.1 ▸ isOpen⟩]
      · rw [if_neg ours, if_neg fun all => ours ⟨all.1, all.2.1⟩] }

theorem kept_pendingReply (core : Core) (req : Nat) (result : Except RpcError Json) :
    Kept conn id core (core.pendingReply req result) := by
  rw [pendingReply]
  split
  · exact .of_still (Quiet.refl core).toStill
  · rename_i held waits
    have counted := Table.count_erase
      (fun _ held => held.conn = conn && held.id = some id) waits
    have erased : core.owed conn id =
        Core.owed { core with pending := core.pending.erase req } conn id +
          if held.conn = conn ∧ held.id = some id then 1 else 0 := by
      simp only [owed, waiting, replied, forwarded, completing] at counted ⊢
      simp only [Bool.and_eq_true, decide_eq_true_eq] at counted ⊢
      omega
    dsimp only
    split
    · rename_i named has
      rw [has] at erased
      simp only [Option.some.injEq] at erased
      exact kept_answered (fun _ => rfl) erased
    · rename_i has
      rw [has, if_neg (by simp)] at erased
      exact ⟨fun _ _ found => found, erased.ge, fun _ => erased.symm⟩

theorem kept_closes {task : String} (standing : Standing before)
    (spared : ∀ req held, before.pending.lookup req = some held → held.task = task →
      held.conn = conn → held.id ≠ some id)
    (closes : Closes task before after) : Kept conn id before after where
  surface other kind found := ((closes.surface other kind).mp found).1
  atMost := by
    rw [owed, owed, replied, replied, counts_of_murmurs (fun _ => answers_loud) closes.log,
      forwarded, forwarded, counts_of_murmurs (fun _ => asksFor_loud) closes.log, waiting, waiting,
      completing, completing, closes.pending, closes.inferPending]
    exact Nat.add_le_add (Nat.add_le_add_left Table.count_retain_le _) Table.count_retain_le
  same isOpen := by
    rw [owed, owed, replied, replied, counts_of_murmurs (fun _ => answers_loud) closes.log,
      forwarded, forwarded, counts_of_murmurs (fun _ => asksFor_loud) closes.log, waiting, waiting,
      completing, completing, closes.pending, closes.inferPending, Table.count_retain,
      Table.count_retain]
    · intro other call waits ours
      simp only [Bool.and_eq_true, decide_eq_true_eq] at ours
      rcases Option.isSome_iff_exists.mp isOpen with ⟨kind, found⟩
      -- The calls of the task are made on connections of its own, which are gone.
      have gone := (closes.surface conn kind).mp found
      rw [← ours.1, standing.mcps other call waits] at gone
      cases gone.1
      simpa using gone.2
    · intro req held waits ours
      simp only [Bool.and_eq_true, decide_eq_true_eq] at ours
      simpa using fun named => spared req held waits named ours.1 ours.2

theorem kept_closeConn (core : Core) (gone : Nat) : Kept conn id core (core.closeConn gone) where
  surface other kind found := by
    rw [surface_eq_some] at found ⊢
    rcases found with ⟨held, found, rfl⟩
    exact ⟨held, (Table.lookup_erase_eq_some.mp found).2, rfl⟩
  atMost := by
    rw [owed, owed, waiting, waiting, completing, completing]
    simp only [closeConn]
    exact Nat.add_le_add (Nat.add_le_add_left Table.count_retain_le _) Table.count_retain_le
  same isOpen := by
    have apart : conn ≠ gone := by
      rintro rfl
      simp [Core.surface, closeConn] at isOpen
    rw [owed, owed, waiting, waiting, completing, completing]
    simp only [closeConn]
    rw [Table.count_retain, Table.count_retain]
    · rfl
    · intro other call waits ours
      simp only [Bool.and_eq_true, decide_eq_true_eq] at ours
      simpa [ours.1] using apart
    · intro req held waits ours
      simp only [Bool.and_eq_true, decide_eq_true_eq] at ours
      simpa [ours.1] using apart

variable [JsonText]

theorem kept_onInference (core : Core) (req : Nat) (result : Except Failure Completion) :
    Kept conn id core (core.onInference host req result) := by
  rw [onInference]
  split
  · exact .of_still (Quiet.refl core).toStill
  · rename_i call waits
    have counted := Table.count_erase
      (fun _ call => call.conn = conn && call.mcpId = id) waits
    have erased : core.owed conn id =
        Core.owed { core with
          inferPending := core.inferPending.erase req
          inferByTask := core.inferByTask.erase call.task } conn id +
          if call.conn = conn ∧ call.mcpId = id then 1 else 0 := by
      simp only [owed, waiting, replied, forwarded, completing] at counted ⊢
      simp only [Bool.and_eq_true, decide_eq_true_eq] at counted ⊢
      omega
    have noted := quiet_record { core with
      inferPending := core.inferPending.erase req
      inferByTask := core.inferByTask.erase call.task } host call.task "mcp_response"
      (.object [("method", .str "tools/call"), ("result", Router.toolResult result)])
    exact kept_answered noted.surface (by rw [erased, owed_still noted.toStill])

/-! ## One message -/

/-- What one message adds to what is owed on a connection. -/
structure Adds (conn : Nat) (id : Json) (gain : Bool) (before after : Core) : Prop where
  surface : ∀ other kind, after.surface other = some kind → before.surface other = some kind
  atMost : after.owed conn id ≤ before.owed conn id + gain.toNat
  same : (after.surface conn).isSome → after.owed conn id = before.owed conn id + gain.toNat

omit [JsonText] in
theorem Kept.before_adds {gain : Bool} (kept : Kept conn id before middle)
    (adds : Adds conn id gain middle after) : Adds conn id gain before after where
  surface other kind found := kept.surface other kind (adds.surface other kind found)
  atMost := adds.atMost.trans (Nat.add_le_add_right kept.atMost _)
  same isOpen := by
    rw [adds.same isOpen, kept.same]
    rcases Option.isSome_iff_exists.mp isOpen with ⟨kind, found⟩
    rw [adds.surface conn kind found]
    rfl

omit [JsonText] in
theorem Kept.adds (kept : Kept conn id before after) : Adds conn id false before after where
  surface := kept.surface
  atMost := kept.atMost
  same := kept.same

theorem owed_inferComplete {other : Nat} {task : Task} {decl : Inference} {mcpId : Json}
    {args : Router.Args} (standing : Standing core) (reached : host.router = true) :
    (core.inferComplete host other task decl mcpId args).2.owed conn id = core.owed conn id +
      (other = conn && mcpId = id).toNat := by
  have fresh : core.inferPending.lookup core.nextInfer = none := by
    cases waits : core.inferPending.lookup core.nextInfer with
    | none => rfl
    | some call => exact absurd (standing.infers _ call waits) (lt_irrefl _)
  have counted := Table.count_insert
    (fun _ call => call.conn = conn && call.mcpId = id) ⟨task.id, other, mcpId⟩ fresh
  rw [inferComplete, reached]
  simp only [Bool.not_true, Bool.false_eq_true, if_false, owed, replied, forwarded, waiting,
    completing, emit, List.countP_append, List.countP_singleton, Out.answers, Out.asksFor,
    counted, Bool.toNat]
  cases other = conn && mcpId = id
  · simp
  · simp
    omega

omit [JsonText] in
theorem owed_ask {other : Nat} {named : Option Json} {call : HumanCall} :
    (core.emit (.ask other named call)).owed conn id = core.owed conn id +
      (other = conn && named = some id).toNat := by
  by_cases ours : other = conn ∧ named = some id
  · simp [owed, replied, forwarded, waiting, completing, emit, Out.answers, Out.asksFor, ours]
    omega
  · have apart : (decide (other = conn) && decide (named = some id)) = false := by
      simpa using ours
    simp [owed, replied, forwarded, waiting, completing, emit, Out.answers, Out.asksFor, apart]

omit [JsonText] in
theorem owed_hold {req : Nat} {held : Pending} (fresh : core.pending.lookup req = none) :
    Core.owed { core with pending := core.pending.insert req held } conn id =
      core.owed conn id + (held.conn = conn && held.id = some id).toNat := by
  have counted := Table.count_insert
    (fun _ held => held.conn = conn && held.id = some id) held fresh
  simp only [owed, replied, forwarded, waiting, completing, counted, Bool.toNat]
  cases held.conn = conn && held.id = some id
  · simp
  · simp
    omega

theorem owed_served {surface : Surface} {other : Nat} {request : Request} {outcome : Outcome}
    (standing : Standing before)
    (served : Served host other request before surface outcome after) :
    after.owed conn id = before.owed conn id +
      (outcome.isDeferred && other = conn && request.id = some id).toNat := by
  cases served with
  | now quiet => simpa [Outcome.isDeferred] using owed_still quiet.toStill
  | asked quiet =>
    rw [owed_ask, owed_still quiet.toStill]
    simp [Outcome.isDeferred]
  | @held req task action middle quiet fresh given =>
    have free : middle.pending.lookup req = none := by
      rw [quiet.pending]
      cases waits : before.pending.lookup req with
      | none => rfl
      | some other => exact absurd (standing.reqs req other waits) (not_lt.mpr fresh)
    rw [owed_hold free, owed_still quiet.toStill]
    simp [Outcome.isDeferred]
  | sent quiet answerable isOpen free reached =>
    rw [owed_inferComplete (standing.of_still quiet.toStill) reached, owed_still quiet.toStill,
      answerable]
    simp [Outcome.isDeferred]

variable [Blake3]

omit [Blake3] [JsonText] in
theorem adds_send {other : Nat} {named : Json} {result : Except RpcError Json} {gain : Bool}
    (matched : gain = (other = conn && named = id)) :
    Adds conn id gain core (core.send other named result) where
  surface asked _ := by
    rw [surface_send]
    exact fun found => found
  atMost := by
    rw [owed_send, matched]
    by_cases ours : other = conn ∧ named = id
    · rw [ours.1, ours.2]
      split <;> simp
    · rw [if_neg fun all => ours ⟨all.1, all.2.1⟩]
      omega
  same := by
    rw [surface_send, owed_send, matched]
    intro isOpen
    by_cases ours : other = conn ∧ named = id
    · rw [if_pos ⟨ours.1, ours.2, ours.1 ▸ isOpen⟩]
      simp [ours]
    · rw [if_neg fun all => ours ⟨all.1, all.2.1⟩]
      simpa using fun same named => absurd ⟨same, named⟩ ours

theorem adds_onLine {other : Nat} {read : Option Json} (standing : Standing core) :
    Adds conn id ((Msg.line other read).asks conn id) core
      (core.onLine settings host other read) := by
  rw [onLine]
  split
  · rename_i closed
    exact {
      surface := fun _ _ found => found
      atMost := Nat.le_add_right _ _
      same := by
        intro isOpen
        have apart : other ≠ conn := by
          rintro rfl
          simp [Core.surface, closed] at isOpen
        simp [Msg.asks, apart] }
  · rename_i held found
    split
    · rename_i named error parsed
      exact adds_send (by rw [Msg.asks, asksWith, parsed])
    · rename_i request parsed
      rcases onRequest_eq core settings host other held.surface request with
        ⟨outcome, after, served, rewritten⟩
      have gained : after.owed conn id = core.owed conn id +
          (outcome.isDeferred && other = conn && request.id = some id).toNat :=
        owed_served standing served
      have surfaces := surface_served served
      have adds : Adds conn id
          (outcome.isDeferred && other = conn && request.id = some id) core after :=
        ⟨fun asked _ => by rw [surfaces]; exact fun found => found, gained.le, fun _ => gained⟩
      rw [rewritten, Msg.asks, asksWith, parsed]
      cases outcome with
      | deferred =>
        rw [Outcome.isDeferred, Bool.true_and] at adds
        cases request.id with
        | none => exact adds
        | some named => exact adds
      | now result =>
        rw [Outcome.isDeferred, Bool.false_and, Bool.false_and] at adds
        have kept : Kept conn id core after := ⟨adds.surface, adds.atMost, adds.same⟩
        cases numbered : request.id with
        | none => simpa [numbered] using kept.adds
        | some named => simpa [numbered] using kept.before_adds (adds_send rfl)

omit [JsonText] [Blake3] in
theorem lookup_pendingReply {req other : Nat} {result : Except RpcError Json} {held : Pending} :
    (core.pendingReply req result).pending.lookup other = some held ↔
      other ≠ req ∧ core.pending.lookup other = some held := by
  rw [pendingReply]
  split
  · rename_i none
    constructor
    · intro found
      refine ⟨?_, found⟩
      rintro rfl
      rw [none] at found
      cases found
    · exact fun both => both.2
  · rw [← Table.lookup_erase_eq_some]
    dsimp only
    split
    · rw [send]
      split <;> rfl
    · rfl

omit [JsonText] [Blake3] in
theorem keeps_owed (start : Core) :
    Keeps
      (fun task => ∀ req held, start.pending.lookup req = some held → held.task = task →
        held.conn = conn → held.id ≠ some id)
      (fun core => Standing core ∧ Kept conn id start core ∧
        ∀ req held, core.pending.lookup req = some held → start.pending.lookup req = some held) where
  quiet quiet := by
    rintro ⟨standing, kept, known⟩
    exact ⟨standing.of_still quiet.toStill, kept.trans (.of_still quiet.toStill),
      fun req held waits => known req held (quiet.pending ▸ waits)⟩
  reply req result := by
    rintro ⟨standing, kept, known⟩
    exact ⟨standing.pendingReply req result, kept.trans (kept_pendingReply _ req result),
      fun other held waits => known other held (lookup_pendingReply.mp waits).2⟩
  close := by
    rintro task before after spared closes - ⟨standing, kept, known⟩
    refine ⟨standing.closes closes, kept.trans (kept_closes standing ?_ closes), ?_⟩
    · exact fun req held waits => spared req held (known req held waits)
    · intro req held waits
      rw [closes.pending, Table.lookup_retain] at waits
      exact known req held waits.1

theorem adds_handle {msg : Msg} (standing : Standing core)
    (spared : ∀ task ∈ core.closes msg, ∀ req held, core.pending.lookup req = some held →
      held.task = task → held.conn = conn → held.id ≠ some id)
    (opens : ∀ other surface, msg ≠ .open other surface) :
    Adds conn id (msg.asks conn id || msg.tells conn id) core
      (handle settings core host msg) := by
  by_cases routine : isRoutine msg
  · have kept : Standing (handle settings core host msg) ∧
        Kept conn id core (handle settings core host msg) ∧
          ∀ req held, (handle settings core host msg).pending.lookup req = some held →
            core.pending.lookup req = some held :=
      (keeps_owed core).handle routine spared
        ⟨standing, .of_still (Quiet.refl core).toStill, fun _ _ waits => waits⟩
    have none : (msg.asks conn id || msg.tells conn id) = false := by
      cases msg <;> first | rfl | cases routine
    rw [none]
    exact kept.2.1.adds
  cases msg with
  | «open» other surface => exact absurd rfl (opens other surface)
  | line other read =>
    have none : (Msg.line other read).tells conn id = false := rfl
    rw [none, Bool.or_false]
    exact adds_onLine standing
  | closed gone => exact (kept_closeConn core gone).adds
  | procExit task status =>
    have ended : Kept conn id core { core with procs := core.procs.filter (· ≠ task) } :=
      .of_still { Quiet.refl core with }
    rw [handle]
    split
    · exact (ended.trans (.of_still (quiet_exited _ _ _).toStill)).adds
    · exact ended.adds
  | humanReply other named result =>
    cases named with
    | none =>
      have none : ((Msg.humanReply other none result).asks conn id ||
          (Msg.humanReply other none result).tells conn id) = false := by
        simp [Msg.asks, Msg.tells]
      rw [none]
      exact (Kept.of_still (Quiet.refl core).toStill).adds
    | some named => exact adds_send (by simp [Msg.asks, Msg.tells])
  | inference req result => exact (kept_onInference core req result).adds
  | link message =>
    cases message with
    | provision => exact (Kept.of_still (still_provision core settings host _)).adds
    | _ => exact absurd rfl routine
  | _ => exact absurd rfl routine

end Core

end EclipseOS.Agentd
