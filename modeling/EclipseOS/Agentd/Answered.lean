import EclipseOS.Agentd.Run

/-! # The console is answered

A request on a console connection that stays open is answered once: at once, or when
`policyd` or a helper thread answers, or at the first tick past its deadline. The one
exception is a pause or a cancel whose task closes while it waits: its entry goes, and
nobody is told. -/

namespace EclipseOS.Agentd

open Foundation PolicyEval

/-- How many helper threads have yet to answer a request. -/
def outstanding (past : List Moment) (core : Core) (conn : Nat) (id : Json) : Nat :=
  core.forwarded conn id - told past conn id

namespace Core

/-- No task closes while a request with an id waits for it. -/
def Spares (core : Core) (msg : Msg) : Prop :=
  ∀ task ∈ core.closes msg, ∀ entry ∈ core.pending.entries,
    entry.2.task = task → entry.2.id = none

instance (core : Core) (msg : Msg) : Decidable (core.Spares msg) :=
  inferInstanceAs (Decidable (∀ task ∈ core.closes msg, ∀ entry ∈ core.pending.entries, _))

variable {core : Core} {host : Host} {settings : Config} {conn : Nat} {id : Json}

theorem Spares.spared {msg : Msg} (spares : core.Spares msg) :
    ∀ task ∈ core.closes msg, ∀ req held, core.pending.lookup req = some held →
      held.task = task → held.conn = conn → held.id ≠ some id := by
  intro task closing req held waits named _ has
  have none := spares task closing ⟨req, held⟩ (Table.lookup_eq_some.mp waits) named
  rw [none] at has
  cases has

/-! ## After a tick -/

theorem lookup_foldl_pendingReply {result : Except RpcError Json} {reqs : List Nat} {req : Nat}
    {held : Pending} :
    (reqs.foldl (fun core req => core.pendingReply req result) core).pending.lookup req =
        some held ↔
      req ∉ reqs ∧ core.pending.lookup req = some held := by
  induction reqs generalizing core with
  | nil => simp
  | cons first reqs induction =>
    rw [List.foldl_cons, induction, lookup_pendingReply, List.mem_cons, not_or]
    tauto

theorem pending_sweep (core : Core) : (core.sweep settings host).pending = core.pending :=
  (quiet_sweep core settings host).pending

theorem deadline_of_tick {req : Nat} {held : Pending}
    (waits : (core.tick settings host).pending.lookup req = some held) :
    host.now < held.deadline := by
  have left : (core.timeOut host).pending.lookup req = some held := by
    rw [tick] at waits
    split at waits
    · rw [pending_sweep] at waits
      exact waits
    · exact waits
  rcases lookup_foldl_pendingReply.mp left with ⟨kept, before⟩
  by_contra passed
  apply kept
  rw [late, List.mem_map]
  exact ⟨⟨req, held⟩, List.mem_filter.mpr ⟨Table.lookup_eq_some.mp before, by
    simpa using passed⟩, rfl⟩

/-! ## Where a waiting request comes from -/

/-- The request that was put to wait, as it came. -/
def Awaits (host : Host) (msg : Msg) (held : Pending) : Prop :=
  ∃ read request, msg = .line held.conn read ∧ parse read = .req request ∧
    held.id = request.id ∧ held.deadline = host.now + pendingMs

theorem pending_send {other : Nat} {named : Json} {result : Except RpcError Json} :
    (core.send other named result).pending = core.pending := by
  rw [send]
  split <;> rfl

variable [JsonText]

theorem awaits_served {surface : Surface} {request : Request} {outcome : Outcome} {after : Core}
    {req : Nat} {held : Pending} (served : Served host conn request core surface outcome after)
    (waits : after.pending.lookup req = some held) :
    core.pending.lookup req = some held ∨
      held.conn = conn ∧ held.id = request.id ∧ held.deadline = host.now + pendingMs := by
  cases served with
  | now quiet => exact .inl (quiet.pending ▸ waits)
  | asked quiet => exact .inl (quiet.pending ▸ waits)
  | held quiet fresh given =>
    rcases Table.lookup_insert_eq_some.mp waits with ⟨rfl, rfl⟩ | ⟨-, before⟩
    · exact .inr ⟨rfl, rfl, rfl⟩
    · exact .inl (quiet.pending ▸ before)
  | sent quiet answerable isOpen free reached =>
    rw [inferComplete, reached] at waits
    exact .inl (quiet.pending ▸ waits)

variable [Blake3]

theorem awaits_handle {msg : Msg} {req : Nat} {held : Pending}
    (waits : (handle settings core host msg).pending.lookup req = some held) :
    core.pending.lookup req = some held ∨ Awaits host msg held := by
  have keeps : Keeps (fun _ => True) fun later =>
      later.pending.lookup req = some held → core.pending.lookup req = some held := {
    quiet := fun quiet kept waits => kept (quiet.pending ▸ waits)
    reply := fun _ _ kept waits => kept (lookup_pendingReply.mp waits).2
    close := fun _ closes _ kept waits =>
      kept (Table.lookup_retain.mp (closes.pending ▸ waits)).1 }
  by_cases routine : isRoutine msg
  · exact .inl (keeps.handle routine (fun _ _ => trivial) (fun waits => waits) waits)
  cases msg with
  | «open» other surface =>
    rw [handle] at waits
    rcases openConn_cases core other surface with refused | opened
    · rw [refused] at waits
      exact .inl waits
    · rw [opened] at waits
      exact .inl waits
  | line other read =>
    rw [handle, onLine] at waits
    split at waits
    · exact .inl waits
    · rename_i found open'
      split at waits
      · rw [pending_send] at waits
        exact .inl waits
      · rename_i request parsed
        rcases onRequest_eq core settings host other found.surface request with
          ⟨outcome, after, served, rewritten⟩
        rw [rewritten] at waits
        have made : after.pending.lookup req = some held := by
          split at waits
          · rwa [pending_send] at waits
          · exact waits
        rcases awaits_served served made with before | ⟨rfl, named, timed⟩
        · exact .inl before
        · exact .inr ⟨read, request, rfl, parsed, named, timed⟩
  | closed gone => exact .inl (Table.lookup_retain.mp waits).1
  | procExit task status =>
    rw [handle] at waits
    split at waits
    · rw [(quiet_exited _ _ _).pending] at waits
      exact .inl waits
    · exact .inl waits
  | humanReply other named result =>
    cases named with
    | none => exact .inl waits
    | some named =>
      rw [handle, pending_send] at waits
      exact .inl waits
  | inference id result =>
    rw [handle, onInference] at waits
    split at waits
    · exact .inl waits
    · rw [pending_send] at waits
      exact .inl waits
  | link message =>
    cases message with
    | provision => exact .inl ((still_provision core settings host _).pending ▸ waits)
    | _ => exact absurd rfl routine
  | _ => exact absurd rfl routine

end Core

/-! ## Every run -/

section Runs

variable [Blake3] [JsonText] {settings : Config} {host : Host} {loaded : List Task}
  {past : List Moment} {moment : Moment} {conn : Nat} {id : Json}

/-- Every console request is answered once, and in time. -/
structure Answered (settings : Config) (host : Host) (loaded : List Task) (past : List Moment) :
    Prop where
  /-- A request on a connection that is open was answered, or `policyd` has to answer it,
  or a helper thread has to. -/
  balance : ∀ conn id, (after settings host loaded past).surface conn = some .console →
    asked past conn id = (after settings host loaded past).replied conn id +
      (after settings host loaded past).waiting conn id +
        outstanding past (after settings host loaded past) conn id
  /-- What waits for `policyd` came on a line, from which its time is counted. -/
  since : ∀ req held, (after settings host loaded past).pending.lookup req = some held →
    ∃ before now msg later, past = before ++ (now, msg) :: later ∧ Core.Awaits now msg held
  /-- After a tick nothing waits whose time is over. -/
  inTime : ∀ before now, past = before ++ [(now, .tick)] → ∀ req held,
    (after settings host loaded past).pending.lookup req = some held → now.now < held.deadline

theorem told_le_forwarded (orderly : Orderly settings host loaded past) :
    told past conn id ≤ (after settings host loaded past).forwarded conn id := by
  refine history (Orderly settings host loaded) ?_ (Nat.zero_le _) ?_ past orderly
  · exact fun past moment orderly => (throughout_snoc.mp orderly).1
  · rintro past ⟨now, msg⟩ orderly bounded
    have likely := (throughout_snoc.mp orderly).2
    have said : (after settings host loaded past).forwarded conn id ≤
        (after settings host loaded (past ++ [(now, msg)])).forwarded conn id := by
      rw [after_snoc]
      exact (Core.prefix_handle _ settings now msg).sublist.countP_le
    rw [told_snoc]
    cases tells : msg.tells conn id with
    | false => exact bounded.trans said
    | true =>
      cases msg with
      | humanReply other named result =>
        simp only [Msg.tells, Bool.and_eq_true, decide_eq_true_eq] at tells
        rcases tells with ⟨rfl, rfl⟩
        exact (Nat.succ_le_of_lt likely).trans said
      | _ => cases tells

theorem awaits_of_pending {req : Nat} {held : Pending}
    (waits : (after settings host loaded past).pending.lookup req = some held) :
    ∃ before now msg later, past = before ++ (now, msg) :: later ∧ Core.Awaits now msg held := by
  induction past using List.reverseRecOn with
  | nil =>
    rcases Core.new_eq settings host loaded with ⟨tasks, start⟩
    have begun : after settings host loaded [] = Core.new settings host loaded := rfl
    rw [begun, start] at waits
    simp at waits
  | append_singleton past moment induction =>
    rw [after_snoc] at waits
    rcases Core.awaits_handle waits with before | awaits
    · rcases induction before with ⟨earlier, now, msg, later, rfl, awaits⟩
      exact ⟨earlier, now, msg, later ++ [moment], by simp, awaits⟩
    · exact ⟨past, moment.1, moment.2, [], rfl, awaits⟩

theorem completing_console (traced : Traced settings host loaded past)
    (found : (after settings host loaded past).surface conn = some .console) :
    (after settings host loaded past).completing conn id = 0 := by
  rw [Core.completing, Table.count_eq_zero]
  intro req call waits
  have on := traced.standing.mcps req call waits
  by_cases ours : call.conn = conn
  · rw [ours, found] at on
    cases on
  · simp [ours]

theorem owed_console (orderly : Orderly settings host loaded past)
    (spares : Throughout
      (fun past moment => (after settings host loaded past).Spares moment.2) past)
    (found : (after settings host loaded past).surface conn = some .console) :
    (after settings host loaded past).owed conn id =
      asked past conn id + told past conn id := by
  induction past using List.reverseRecOn with
  | nil => exact absurd (traced_nil.known conn _ found) (by simp [opened])
  | append_singleton past moment induction =>
    rcases throughout_snoc.mp orderly with ⟨before, likely⟩
    rcases throughout_snoc.mp spares with ⟨spared, spares⟩
    exact owed_snoc likely (traced_of_orderly before) found (fun _ => spares.spared)
      (induction before spared)

/-- Unless a task closes while a request waits for it, every console request is answered. -/
theorem console_answered (orderly : Orderly settings host loaded past)
    (spares : Throughout
      (fun past moment => (after settings host loaded past).Spares moment.2) past) :
    Answered settings host loaded past where
  balance conn id found := by
    have owed : (after settings host loaded past).owed conn id =
        asked past conn id + told past conn id := owed_console orderly spares found
    have none : (after settings host loaded past).completing conn id = 0 :=
      completing_console (traced_of_orderly orderly) found
    have bounded : told past conn id ≤ (after settings host loaded past).forwarded conn id :=
      told_le_forwarded orderly
    rw [Core.owed, none] at owed
    rw [outstanding]
    omega
  since req held waits := awaits_of_pending waits
  inTime before now split req held waits := by
    rw [split, after_snoc] at waits
    exact Core.deadline_of_tick waits

end Runs

/-! ## A pause whose task closes -/

/-- A call on the console, with an id and one parameter. -/
def consoleLine (conn id : Nat) (method task : String) : Msg :=
  .line conn (some (.obj
    (.cons "id" (.ofNat id) (.cons "jsonrpc" (.str "2.0") (.cons "method" (.str method)
      (.cons "params" (.obj (.cons "task_id" (.str task) .nil)) .nil))))))

/-- A pause is asked for, and `policyd` does the rest. -/
def paused (rest : List Msg) : List Moment :=
  [.open 1 .console, .linkUp ⟨none⟩, provisionOf someTask,
    consoleLine 1 7 "pause_task" someTask].map (ready 0, ·) ++ rest.map (ready pendingMs, ·)

/-- The task closes while the pause waits: its deadline passes, and nobody is told. -/
theorem pause_forgotten :
    ¬@Answered startDigest unwritten settled (ready 0) []
      (paused [.link (.taskState someTask "closed" "done"), .tick]) := by
  intro answered
  have balance := @Answered.balance startDigest unwritten _ _ _ _ answered 1 (.ofNat 7)
    (by decide)
  revert balance
  decide

/-- The pause is acknowledged. -/
theorem pause_answered :
    @Answered startDigest unwritten settled (ready 0) [] (paused [.link (.done 1), .tick]) :=
  @console_answered startDigest unwritten settled (ready 0) []
    (paused [.link (.done 1), .tick]) (by decide) (by decide)

end EclipseOS.Agentd
