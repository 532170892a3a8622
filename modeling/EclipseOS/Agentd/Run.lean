import EclipseOS.Agentd.Balance
import EclipseOS.Foundation.History

/-! # Runs of the core

Connection ids come from a counter and are not given twice; a connection's lines and its
end come after it is handed over; a helper thread answers once. All else reaches the core
in any order. -/

namespace EclipseOS.Agentd

open Foundation PolicyEval

def opened (past : List Moment) : List Nat :=
  past.filterMap fun moment => match moment.2 with
    | .open conn _ => some conn
    | _ => none

/-- How many requests of an id came on a connection. -/
def asked (past : List Moment) (conn : Nat) (id : Json) : Nat :=
  past.countP fun moment => moment.2.asks conn id

/-- How many helper threads answered such requests. -/
def told (past : List Moment) (conn : Nat) (id : Json) : Nat :=
  past.countP fun moment => moment.2.tells conn id

/-- What the socket and helper threads send a core after what came before. -/
def Plausible (past : List Moment) (core : Core) : Msg → Prop
  | .open conn _ => conn ∉ opened past
  | .line conn _ | .closed conn => conn ∈ opened past
  | .humanReply conn (some id) _ => told past conn id < core.forwarded conn id
  | _ => True

instance : ∀ past core msg, Decidable (Plausible past core msg)
  | past, _, .open conn _ => inferInstanceAs (Decidable (conn ∉ opened past))
  | past, _, .line conn _ => inferInstanceAs (Decidable (conn ∈ opened past))
  | past, _, .closed conn => inferInstanceAs (Decidable (conn ∈ opened past))
  | past, core, .humanReply conn (some id) _ =>
    inferInstanceAs (Decidable (told past conn id < core.forwarded conn id))
  | _, _, .humanReply _ none _ => inferInstanceAs (Decidable True)
  | _, _, .linkUp _ | _, _, .linkDown | _, _, .link _ | _, _, .decisions _
  | _, _, .procExit .. | _, _, .inference .. | _, _, .tick => inferInstanceAs (Decidable True)

/-! ## A machine to try runs on -/

def ready (now : Nat) : Host where
  now := now
  metaWritten := true
  messageStored := true
  packages := []
  inference _ _ := some (.ok (some ⟨.api, "model"⟩))
  resumable _ _ := false
  socket := true
  started := true
  session _ := none
  router := true

def settled : Config := ⟨true, true, 0⟩

@[reducible] def unwritten : JsonText := ⟨fun _ => ""⟩

def someTask : String := "00000000000000000000000001"

/-- `policyd` provisions a task. -/
def provisionOf (task : String) : Msg :=
  .link (.provision task "agent:demo" "demo" "1" "say" 0 [] "" "" "")

/-! ## The start -/

namespace Core

variable {core : Core} {settings : Config} {host : Host} {loaded : List Task}

theorem foldl_tasks {α : Type} {step : Core → α → Core}
    (each : ∀ core item, ∃ tasks, step core item = { core with tasks := tasks })
    (items : List α) (core : Core) :
    ∃ tasks, items.foldl step core = { core with tasks := tasks } := by
  induction items generalizing core with
  | nil => exact ⟨core.tasks, rfl⟩
  | cons item items induction =>
    rcases each core item with ⟨between, stepped⟩
    rcases induction (step core item) with ⟨tasks, folded⟩
    rw [List.foldl_cons, folded, stepped]
    exact ⟨tasks, rfl⟩

theorem new_eq (settings : Config) (host : Host) (loaded : List Task) :
    ∃ tasks, Core.new settings host loaded = {
      log := []
      tasks := tasks
      conns := ∅
      link := none
      auditQ := []
      pending := ∅
      nextReq := 1
      decisions := 0
      lastShowMs := none
      lastUnlockMs := none
      procs := []
      lastSweepMs := host.now
      nextInfer := 1
      inferPending := ∅
      inferByTask := ∅
      unreported := (loaded.filter (!·.isClosed)).map Task.id } := by
  rw [Core.new, sweep]
  have sweeps : ∀ core id, ∃ tasks, removeTask core id = { core with tasks := tasks } :=
    fun _ _ => ⟨_, rfl⟩
  have fills : ∀ core task, ∃ tasks,
      (removeTask core task.id).insertTask (foundOnDisk host task) =
        { core with tasks := tasks } :=
    fun _ _ => ⟨_, rfl⟩
  rcases foldl_tasks sweeps _ _ with ⟨left, swept⟩
  rcases foldl_tasks fills loaded _ with ⟨held, filled⟩
  rw [swept, filled]
  exact ⟨left, rfl⟩

theorem isClosed_foundOnDisk (host : Host) (task : Task) : (foundOnDisk host task).isClosed := by
  rw [foundOnDisk]
  split
  · assumption
  · rfl

theorem mem_tasks_new (settings : Config) (host : Host) (loaded : List Task) :
    ∀ task ∈ (Core.new settings host loaded).tasks, task.isClosed := by
  rw [Core.new, sweep]
  have swept : ∀ (ids : List String) (core : Core), (∀ task ∈ core.tasks, task.isClosed) →
      ∀ task ∈ (ids.foldl removeTask core).tasks, task.isClosed := by
    intro ids
    induction ids with
    | nil => exact fun core closed => closed
    | cons id ids induction =>
      intro core closed
      exact induction _ fun task member => closed task (List.mem_filter.mp member).1
  apply swept
  have filled : ∀ (loaded : List Task) (core : Core), (∀ task ∈ core.tasks, task.isClosed) →
      ∀ task ∈ (loaded.foldl (fun core task =>
        (core.removeTask task.id).insertTask (foundOnDisk host task)) core).tasks,
        task.isClosed := by
    intro loaded
    induction loaded with
    | nil => exact fun core closed => closed
    | cons found loaded induction =>
      intro core closed
      apply induction
      intro task member
      rcases (List.mem_orderedInsert _).mp member with rfl | member
      · exact isClosed_foundOnDisk host found
      · exact closed task (List.mem_filter.mp member).1
  exact filled loaded _ (by simp)

theorem isOpen_new {id : String} : (Core.new settings host loaded).isOpen id = false := by
  rw [isOpen]
  cases found : (Core.new settings host loaded).task id with
  | none => rfl
  | some task =>
    have closed := mem_tasks_new settings host loaded task (List.mem_of_find?_eq_some found)
    simp [closed]

end Core

/-! ## Histories -/

variable {past : List Moment} {moment : Moment} {conn : Nat} {id : Json} {kind : Surface}

theorem asked_snoc : asked (past ++ [moment]) conn id =
    asked past conn id + (moment.2.asks conn id).toNat := by
  rw [asked, List.countP_append, List.countP_singleton, asked]
  cases moment.2.asks conn id <;> rfl

theorem told_snoc : told (past ++ [moment]) conn id =
    told past conn id + (moment.2.tells conn id).toNat := by
  rw [told, List.countP_append, List.countP_singleton, told]
  cases moment.2.tells conn id <;> rfl

theorem toNat_asks_or_tells (msg : Msg) :
    (msg.asks conn id || msg.tells conn id).toNat =
      (msg.asks conn id).toNat + (msg.tells conn id).toNat := by
  cases msg with
  | line other read =>
    have none : (Msg.line other read).tells conn id = false := rfl
    rw [none, Bool.or_false]
    rfl
  | _ =>
    rw [Msg.asks, Bool.false_or, Bool.toNat_false, Nat.zero_add]
    simp

theorem mem_opened_snoc : conn ∈ opened (past ++ [moment]) ↔
    conn ∈ opened past ∨ ∃ surface, moment.2 = .open conn surface := by
  rw [opened, List.filterMap_append, List.mem_append, opened]
  refine or_congr_right ?_
  cases named : moment.2 <;> simp [named, eq_comm]

variable [Blake3] [JsonText] {settings : Config} {host : Host} {loaded : List Task}

/-- The core after what reached it, from the tasks found on disk when it started. -/
def after (settings : Config) (host : Host) (loaded : List Task) (past : List Moment) : Core :=
  Core.run settings (Core.new settings host loaded) past

abbrev Orderly (settings : Config) (host : Host) (loaded : List Task) (past : List Moment) :
    Prop :=
  Throughout (fun past moment => Plausible past (after settings host loaded past) moment.2) past

theorem after_snoc : after settings host loaded (past ++ [moment]) =
    (after settings host loaded past).step settings moment := by
  simp [after, Core.run]

/-- What the connections and the tables have to do with what came before. -/
structure Traced (settings : Config) (host : Host) (loaded : List Task) (past : List Moment) :
    Prop where
  standing : (after settings host loaded past).Standing
  known : ∀ conn kind, (after settings host loaded past).surface conn = some kind →
    conn ∈ opened past
  new : ∀ conn id, conn ∉ opened past → (after settings host loaded past).owed conn id = 0 ∧
    asked past conn id = 0 ∧ told past conn id = 0

theorem traced_nil : Traced settings host loaded [] := by
  rcases Core.new_eq settings host loaded with ⟨tasks, start⟩
  have begun : after settings host loaded [] = Core.new settings host loaded := rfl
  rw [start] at begun
  constructor
  · rw [begun]
    exact ⟨by simp, by simp, by simp, by simp, by simp, by simp⟩
  · rw [begun]
    simp [Core.surface]
  · rw [begun]
    exact fun conn id _ => ⟨rfl, rfl, rfl⟩

theorem Traced.unheard (traced : Traced settings host loaded past) (unopened : conn ∉ opened past) :
    (after settings host loaded past).surface conn = none := by
  cases found : (after settings host loaded past).surface conn with
  | none => rfl
  | some kind => exact absurd (traced.known conn kind found) unopened

omit [Blake3] [JsonText] in
theorem owed_openConn {core : Core} {other : Nat} :
    (core.openConn other kind).owed conn id = core.owed conn id := by
  rcases Core.openConn_cases core other kind with refused | opened
  · rw [refused]
    exact Core.owed_still (Core.quiet_emit rfl).toStill
  · rw [opened]
    rfl

omit [Blake3] [JsonText] in
theorem surface_openConn {core : Core} {other : Nat} {found : Surface}
    (held : (core.openConn other kind).surface conn = some found) :
    conn = other ∨ core.surface conn = some found := by
  rcases Core.openConn_cases core other kind with refused | opened
  · rw [refused] at held
    exact .inr held
  · rw [opened, Core.surface] at held
    by_cases same : conn = other
    · exact .inl same
    · rw [AList.lookup_insert_ne same] at held
      exact .inr held

theorem traced_snoc (likely : Plausible past (after settings host loaded past) moment.2)
    (traced : Traced settings host loaded past) : Traced settings host loaded (past ++ [moment]) := by
  rcases moment with ⟨now, msg⟩
  constructor
  · rw [after_snoc]
    apply Core.standing_handle _ traced.standing
    rintro conn surface rfl
    exact traced.unheard likely
  · intro conn found held
    rw [after_snoc] at held
    rw [mem_opened_snoc]
    cases msg with
    | «open» other surface =>
      rcases surface_openConn held with rfl | before
      · exact .inr ⟨surface, rfl⟩
      · exact .inl (traced.known conn found before)
    | _ => exact .inl (traced.known conn found (Core.surface_handle (by simp) conn found held))
  · intro conn id unopened
    rw [mem_opened_snoc, not_or] at unopened
    rcases traced.new conn id unopened.1 with ⟨owes, askedNone, toldNone⟩
    have spared : ∀ task ∈ (after settings host loaded past).closes msg, ∀ req held,
        (after settings host loaded past).pending.lookup req = some held → held.task = task →
        held.conn = conn → held.id ≠ some id := by
      rintro task - req held waits - rfl
      have on := traced.standing.consoles req held waits
      rw [traced.unheard unopened.1] at on
      cases on
    -- Nothing comes from a connection that was not handed over, and no thread speaks for it.
    have silent : msg.asks conn id = false ∧ msg.tells conn id = false := by
      cases msg with
      | line other read =>
        have apart : other ≠ conn := by
          rintro rfl
          exact unopened.1 likely
        exact ⟨by simp [Msg.asks, apart], rfl⟩
      | humanReply other named result =>
        refine ⟨rfl, ?_⟩
        cases named with
        | none => simp [Msg.tells]
        | some named =>
          have waits : told past other named <
              (after settings host loaded past).forwarded other named := likely
          by_cases same : other = conn ∧ named = id
          · rw [same.1, same.2] at waits
            have owed := owes
            rw [Core.owed] at owed
            omega
          · simpa [Msg.tells] using fun at' named => same ⟨at', named⟩
      | _ => exact ⟨rfl, rfl⟩
    rw [asked_snoc, told_snoc, askedNone, toldNone, silent.1, silent.2, after_snoc]
    refine ⟨?_, rfl, rfl⟩
    cases msg with
    | «open» other surface => exact owed_openConn.trans owes
    | _ =>
      have adds : Core.Adds conn id _ _ (Core.handle settings _ now _) :=
        Core.adds_handle traced.standing spared (by simp)
      rw [silent.1, silent.2] at adds
      exact Nat.le_zero.mp (adds.atMost.trans owes.le)

theorem traced_of_orderly (orderly : Orderly settings host loaded past) :
    Traced settings host loaded past := by
  refine history (Orderly settings host loaded) ?_ traced_nil ?_ past orderly
  · exact fun past moment orderly => (throughout_snoc.mp orderly).1
  · exact fun past moment orderly traced => traced_snoc (throughout_snoc.mp orderly).2 traced

theorem owed_snoc (likely : Plausible past (after settings host loaded past) moment.2)
    (traced : Traced settings host loaded past)
    (found : (after settings host loaded (past ++ [moment])).surface conn = some kind)
    (spared : (after settings host loaded past).surface conn = some kind →
      ∀ task ∈ (after settings host loaded past).closes moment.2, ∀ req held,
        (after settings host loaded past).pending.lookup req = some held → held.task = task →
        held.conn = conn → held.id ≠ some id)
    (balance : (after settings host loaded past).surface conn = some kind →
      (after settings host loaded past).owed conn id = asked past conn id + told past conn id) :
    (after settings host loaded (past ++ [moment])).owed conn id =
      asked (past ++ [moment]) conn id + told (past ++ [moment]) conn id := by
  rcases moment with ⟨now, msg⟩
  rw [after_snoc] at found ⊢
  rw [asked_snoc, told_snoc]
  cases msg with
  | «open» other surface =>
    have same : ((after settings host loaded past).openConn other surface).owed conn id =
        (after settings host loaded past).owed conn id := owed_openConn
    have settled : (after settings host loaded past).owed conn id =
        asked past conn id + told past conn id := by
      rcases surface_openConn found with rfl | before
      · rcases traced.new conn id likely with ⟨owes, none, none'⟩
        rw [owes, none, none']
      · exact balance before
    exact same.trans settled
  | _ =>
    have before := Core.surface_handle (by simp) conn kind found
    have adds : Core.Adds conn id _ _ (Core.handle settings _ now _) :=
      Core.adds_handle traced.standing (spared before) (by simp)
    have gained := adds.same (by rw [Core.step] at found; rw [found]; rfl)
    rw [Core.step, gained, balance before, toNat_asks_or_tells]
    omega

end EclipseOS.Agentd
