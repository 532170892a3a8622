import EclipseOS.Abyss.Batching.Commit
import EclipseOS.Foundation.History

/-! # Batches and their tokens, over a run

Approvals, acts, batches and endings come in any order, from any number of agents. -/

namespace EclipseOS.Abyss.Batching

open Foundation PolicyEval

variable {ω : Type}

/-- What one agent's queued requests came to. -/
structure Tally where
  queued : List UInt32
  answered : List UInt32
  /-- They answer by themselves, later, alone. -/
  waiting : List UInt32
  /-- They went with the seat they were for. -/
  dropped : List UInt32

structure Run (ω : Type) where
  desk : Desk ω
  /-- Every ticket a human approved. -/
  issued : List Ticket
  spent : List Ticket
  tally : UInt64 → Tally

/-- What reaches the compositor. A task that ends, or another that begins, shows in the
next scene. -/
inductive Event (ω : Type) where
  /-- The human approved a preflight. -/
  | approved (agent : UInt64) (task : Option Ulid) (targets : List Target)
  /-- A request that was let in. -/
  | acts (moment : Moment ω) (req : Request)
  | begins (scene : Scene ω) (agent : UInt64) (frames : UInt32)
  | commits (scene : Scene ω) (moments : Nat → Moment ω) (agent : UInt64)
  | aborts (agent : UInt64)
  /-- Something else gave the agent its seat, or moved it. -/
  | seated (agent : UInt64) (seat : AgentSeat ω)
  /-- The seat goes. -/
  | removed (agent : UInt64)
  /-- The agent goes. -/
  | forgotten (agent : UInt64)

def Settled.waits (one : Settled) : Bool := one.fate = .waiting

def answers (settled : List Settled) : List UInt32 :=
  (settled.filter (!·.waits)).map Settled.reqId

def waits (settled : List Settled) : List UInt32 := (settled.filter Settled.waits).map Settled.reqId

def reqIds : Option (Batch ω) → List UInt32
  | none => []
  | some batch => batch.queued.map Queued.reqId

/-- The requests an agent's open batch holds. -/
def Desk.pending (desk : Desk ω) (agent : UInt64) : List UInt32 := reqIds (desk.atomic agent)

namespace Run

def default : Run ω where
  desk := ⟨Batches.default, fun _ => none, fun _ => none⟩
  issued := []
  spent := []
  tally := fun _ => ⟨[], [], [], []⟩

/-- One agent's requests arrive and are settled. -/
def settle (run : Run ω) (agent : UInt64) (arrived : List UInt32) (settled : List Settled)
    (desk : Desk ω) : Run ω :=
  let tally := run.tally agent
  { run with
    desk
    tally := Function.update run.tally agent
      { tally with
        queued := tally.queued ++ arrived
        answered := tally.answered ++ answers settled
        waiting := tally.waiting ++ waits settled } }

/-- A batch cannot outlive the seat it was for. -/
def drop (run : Run ω) (agent : UInt64) : Run ω :=
  let tally := run.tally agent
  { run with
    desk := { run.desk.setAtomic agent none with
      seats := Function.update run.desk.seats agent none }
    tally := Function.update run.tally agent
      { tally with dropped := tally.dropped ++ run.desk.pending agent } }

variable [DecidableEq ω]

def step (run : Run ω) : Event ω → Run ω
  | .approved agent task targets =>
    let batches := run.desk.batches
    { run with
      desk := { run.desk with batches := batches.approved agent task targets }
      issued := run.issued ++ (batches.minted agent task targets).tickets }
  | .acts moment req =>
    match run.desk.atomic req.agent with
    | some _ =>
      let (desk, settled) := run.desk.queue moment.scene req
      run.settle req.agent [req.reqId] settled desk
    | none =>
      let ran := moment.submit run.desk.batches (run.desk.seats req.agent) req
      { run with
        desk := { run.desk with
          batches := ran.batches
          seats := Function.update run.desk.seats req.agent ran.seat }
        spent := run.spent ++ ran.spent }
  | .begins scene agent frames => { run with desk := (run.desk.begin scene agent frames).1 }
  | .commits scene moments agent =>
    let committed := run.desk.commit scene moments agent
    { run.settle agent [] committed.settled committed.desk with
      spent := run.spent ++ committed.spent }
  | .aborts agent =>
    let (desk, settled, _) := run.desk.abortByAgent agent
    run.settle agent [] settled desk
  | .seated agent seat =>
    { run with
      desk := { run.desk with seats := Function.update run.desk.seats agent (some seat) } }
  | .removed agent =>
    match run.desk.seats agent with
    | none => run
    | some _ => run.drop agent
  | .forgotten agent =>
    let run := run.drop agent
    { run with desk := { run.desk with batches := run.desk.batches.forget agent } }

def after (events : List (Event ω)) : Run ω := events.foldl step default

end Run

/-! ## Settling -/

/-- An aborted batch holds nothing, and a batch holds its own agent's requests. -/
structure Sound (agent : UInt64) (batch : Batch ω) : Prop where
  emptied : batch.aborted ≠ none → batch.queued = []
  own : ∀ q ∈ batch.queued, q.req.agent = agent

def Desk.Sound (desk : Desk ω) : Prop :=
  ∀ agent batch, desk.atomic agent = some batch → Batching.Sound agent batch

/-- One agent's requests are settled or stay queued, and nobody else's change. -/
structure Settles (desk desk' : Desk ω) (agent : UInt64) (arrived : List UInt32)
    (settled : List Settled) : Prop where
  own : desk.pending agent ++ arrived = settled.map Settled.reqId ++ desk'.pending agent
  others : ∀ other ≠ agent, desk'.pending other = desk.pending other
  sound : desk'.Sound

section

variable {desk desk' : Desk ω} {scene : Scene ω} {agent : UInt64} {batch : Option (Batch ω)}
  {arrived : List UInt32} {settled : List Settled}

theorem Desk.Sound.update (sound : desk.Sound)
    (set : desk'.atomic = Function.update desk.atomic agent batch)
    (isSound : ∀ one, batch = some one → Batching.Sound agent one) : desk'.Sound := by
  intro other one found
  rw [set] at found
  by_cases same : other = agent
  · subst same
    rw [Function.update_self] at found
    exact isSound one found
  · rw [Function.update_of_ne same] at found
    exact sound other one found

theorem pending_update (set : desk'.atomic = Function.update desk.atomic agent batch) :
    desk'.pending agent = reqIds batch := by
  rw [Desk.pending, set, Function.update_self]

theorem pending_update_of_ne {other : UInt64}
    (set : desk'.atomic = Function.update desk.atomic agent batch) (apart : other ≠ agent) :
    desk'.pending other = desk.pending other := by
  rw [Desk.pending, set, Function.update_of_ne apart, Desk.pending]

theorem settles_update (sound : desk.Sound)
    (set : desk'.atomic = Function.update desk.atomic agent batch)
    (isSound : ∀ one, batch = some one → Batching.Sound agent one)
    (own : desk.pending agent ++ arrived = settled.map Settled.reqId ++ reqIds batch) :
    Settles desk desk' agent arrived settled where
  own := by rw [own, pending_update set]
  others := fun _ apart => pending_update_of_ne set apart
  sound := sound.update set isSound

theorem settles_close (sound : desk.Sound)
    (closed : desk'.atomic = Function.update desk.atomic agent none)
    (own : desk.pending agent = settled.map Settled.reqId) :
    Settles desk desk' agent [] settled :=
  settles_update sound closed nofun (by rw [own]; rfl)

theorem settles_abort {one : Batch ω} {status : Status} {detail : String} (sound : desk.Sound)
    (own : desk.pending agent ++ arrived = one.queued.map Queued.reqId) :
    Settles desk (desk.abort agent one status detail).1 agent arrived
      (desk.abort agent one status detail).2 := by
  apply settles_update sound rfl
  · intro emptied same
    cases same
    exact ⟨fun _ => rfl, nofun⟩
  · rw [own, Desk.abort, reqIds_replyAll, reqIds, List.map_nil, List.append_nil]

theorem settles_refl (sound : desk.Sound) : Settles desk desk agent [] [] where
  own := by simp
  others := fun _ _ => rfl
  sound := sound

theorem settles_abortByAgent (sound : desk.Sound) (agent : UInt64) :
    Settles desk (desk.abortByAgent agent).1 agent [] (desk.abortByAgent agent).2.1 := by
  rw [Desk.abortByAgent]
  cases found : desk.atomic agent with
  | none => exact settles_refl sound
  | some batch =>
    have all : desk.pending agent = batch.queued.map Queued.reqId := by
      rw [Desk.pending, found, reqIds]
    exact settles_close sound rfl (by rw [all, reqIds_replyAll])

variable [DecidableEq ω]

theorem settles_queue (sound : desk.Sound) (scene : Scene ω) (req : Request)
    («open» : desk.atomic req.agent ≠ none) :
    Settles desk (desk.queue scene req).1 req.agent [req.reqId] (desk.queue scene req).2 := by
  rw [Desk.queue]
  cases found : desk.atomic req.agent with
  | none => exact absurd found «open»
  | some batch =>
    have isSound := sound req.agent batch found
    have all : desk.pending req.agent = batch.queued.map Queued.reqId := by
      rw [Desk.pending, found, reqIds]
    dsimp only
    split
    · rename_i aborted
      have emptied := isSound.emptied (aborted ▸ Option.some_ne_none _)
      have none : desk.pending req.agent = [] := by rw [all, emptied, List.map_nil]
      exact ⟨by simp [none], fun _ _ => rfl, sound⟩
    · rename_i unaborted
      let last : Queued ω := ⟨req, scene.named req.act⟩
      have own : ∀ q ∈ batch.queued ++ [last], q.req.agent = req.agent := by
        intro q member
        rcases List.mem_append.mp member with earlier | isLast
        · exact isSound.own q earlier
        · rw [List.mem_singleton.mp isLast]
      have grown : desk.pending req.agent ++ [req.reqId] =
          (batch.queued ++ [last]).map Queued.reqId := by
        rw [all, List.map_append]
        rfl
      split
      · exact settles_abort sound grown
      · split
        · exact settles_abort sound grown
        · apply settles_update sound rfl
          · intro one same
            cases same
            exact ⟨fun aborted => absurd unaborted aborted, own⟩
          · rw [grown]
            rfl

theorem settles_commit (sound : desk.Sound) (scene : Scene ω) (moments : Nat → Moment ω)
    (agent : UInt64) :
    Settles desk (desk.commit scene moments agent).desk agent []
      (desk.commit scene moments agent).settled := by
  rw [Desk.commit]
  dsimp only
  cases found : desk.atomic agent with
  | none => exact settles_refl sound
  | some batch =>
    have all : desk.pending agent = batch.queued.map Queued.reqId := by
      rw [Desk.pending, found, reqIds]
    dsimp only
    split
    · rename_i cause aborted
      have emptied := (sound agent batch found).emptied (aborted ▸ Option.some_ne_none cause)
      exact settles_close sound rfl (by rw [all, emptied]; rfl)
    · split
      · exact settles_close sound rfl (by rw [all, reqIds_replyAll])
      · split
        · exact settles_close sound rfl (by rw [all, reqIds_replyAll])
        · exact settles_close sound rfl (by rw [all, reqIds_deliver])

end

def Replied (settled : List Settled) : Prop :=
  ∀ one ∈ settled, ∃ status detail, one.fate = .replied status detail

section

variable {desk : Desk ω} {scene : Scene ω} {agent : UInt64}

theorem replied_replyAll (queued : List (Queued ω)) (status : Status) (detail : String) :
    Replied (replyAll queued status detail) := by
  intro one member
  rcases List.mem_map.mp member with ⟨_, _, rfl⟩
  exact ⟨status, detail, rfl⟩

theorem waits_of_replied {settled : List Settled} (replied : Replied settled) :
    waits settled = [] := by
  rw [waits, List.map_eq_nil_iff, List.filter_eq_nil_iff]
  intro one member waiting
  rcases replied one member with ⟨status, detail, fate⟩
  rw [Settled.waits, fate] at waiting
  cases of_decide_eq_true waiting

theorem answers_waits (settled : List Settled) :
    (waits settled ++ answers settled).Perm (settled.map Settled.reqId) := by
  rw [waits, answers, ← List.map_append]
  exact (List.filter_append_perm _ _).map _

theorem replied_abortByAgent : Replied (desk.abortByAgent agent).2.1 := by
  rw [Desk.abortByAgent]
  split
  · exact nofun
  · exact replied_replyAll _ _ _

variable [DecidableEq ω]

theorem replied_queue {req : Request} : Replied (desk.queue scene req).2 := by
  rw [Desk.queue]
  split
  · exact nofun
  · split
    · rename_i status detail _
      intro one member
      rw [List.mem_singleton.mp member]
      exact ⟨status, detail, rfl⟩
    · dsimp only
      split
      · exact replied_replyAll _ _ _
      · split
        · exact replied_replyAll _ _ _
        · exact nofun

end

/-- The batch an agent commits, where its dry run accepts it. -/
def Accepts [DecidableEq ω] (desk : Desk ω) (scene : Scene ω) (agent : UInt64) : Prop :=
  ∃ batch, desk.atomic agent = some batch ∧ batch.aborted = none ∧
    scene.check batch = .ok () ∧
    scene.dryRun desk.batches (desk.seats agent) (batch.queued.map (·.req)) = .ok ()

/-- A commit runs in the scene its dry run saw, and finds the seat's focus where the
dry run supposed it. -/
def Steady [DecidableEq ω] (run : Run ω) : Event ω → Prop
  | .commits scene moments agent =>
    (∀ i, Unchanged scene (moments i).scene) ∧
      ∀ batch, run.desk.atomic agent = some batch →
        Follows scene (run.desk.seats agent) (scene.focusedWindow (run.desk.seats agent))
          (batch.queued.map (·.req))
  | _ => True

section

variable [DecidableEq ω] {run : Run ω} {scene : Scene ω} {moments : Nat → Moment ω}
  {agent : UInt64}

theorem settled_of_accepts (sound : run.desk.Sound)
    (steady : Steady run (.commits scene moments agent)) (accepts : Accepts run.desk scene agent) :
    ∀ one ∈ (run.desk.commit scene moments agent).settled,
      ∃ status detail, one.fate = .replied status detail ∧ ¬RanOut status := by
  rcases accepts with ⟨batch, found, unaborted, checked, accepted⟩
  have delivered := deliver_settled 0 run.desk.batches steady.1
    (sound agent batch found).own accepted (steady.2 batch found) fun _ _ covers => covers
  rw [Desk.commit]
  dsimp only
  rw [found]
  dsimp only
  rw [unaborted]
  dsimp only
  rw [checked]
  dsimp only
  rw [accepted]
  exact delivered

theorem replied_commit (sound : run.desk.Sound)
    (steady : Steady run (.commits scene moments agent)) :
    Replied (run.desk.commit scene moments agent).settled := by
  by_cases accepts : Accepts run.desk scene agent
  · intro one member
    rcases settled_of_accepts sound steady accepts one member with ⟨status, detail, fate, _⟩
    exact ⟨status, detail, fate⟩
  · rw [Desk.commit]
    dsimp only
    split
    · exact nofun
    · rename_i batch found
      split
      · exact nofun
      · rename_i unaborted
        split
        · exact replied_replyAll _ _ _
        · rename_i checked
          split
          · exact replied_replyAll _ _ _
          · rename_i accepted
            exact absurd ⟨batch, found, unaborted, checked, accepted⟩ accepts

end

/-! ## Every run -/

/-- Each ticket is used once, and each request settled once. -/
structure Kept (run : Run ω) : Prop where
  sound : run.desk.Sound
  tickets : ∀ ticket, run.spent.count ticket + run.desk.batches.tickets.count ticket ≤
    run.issued.count ticket
  requests : ∀ agent, (run.tally agent).queued.Perm
    ((run.tally agent).answered ++ (run.tally agent).waiting ++ run.desk.pending agent ++
      (run.tally agent).dropped)

section

variable {run : Run ω} {desk : Desk ω} {scene : Scene ω} {agent : UInt64}
  {arrived : List UInt32} {settled : List Settled}

theorem requests_settle (kept : Kept run) (settles : Settles run.desk desk agent arrived settled)
    (other : UInt64) :
    let tally := (run.settle agent arrived settled desk).tally other
    tally.queued.Perm (tally.answered ++ tally.waiting ++ desk.pending other ++ tally.dropped) := by
  have before := kept.requests other
  dsimp only [Run.settle]
  by_cases same : other = agent
  · subst same
    rw [Function.update_self]
    rw [List.perm_iff_count] at before ⊢
    intro reqId
    have before := before reqId
    have own := congrArg (List.count reqId) settles.own
    have all := (answers_waits settled).count_eq reqId
    simp only [List.count_append] at before own all ⊢
    omega
  · rw [Function.update_of_ne same, settles.others other same]
    exact before

theorem kept_drop (kept : Kept run) (agent : UInt64) : Kept (run.drop agent) where
  sound := kept.sound.update rfl nofun
  tickets := kept.tickets
  requests := by
    intro other
    have before := kept.requests other
    have set : (run.drop agent).desk.atomic = Function.update run.desk.atomic agent none := rfl
    by_cases same : other = agent
    · subst same
      rw [pending_update set, Run.drop]
      dsimp only
      rw [Function.update_self, reqIds, List.append_nil]
      refine before.trans ?_
      rw [List.append_assoc]
      exact List.perm_append_comm.append_left _
    · rw [pending_update_of_ne set same, Run.drop]
      dsimp only
      rw [Function.update_of_ne same]
      exact before

theorem kept_default : Kept (Run.default : Run ω) where
  sound := nofun
  tickets := fun _ => Nat.le_refl _
  requests := fun _ => .refl _

theorem kept_begin (kept : Kept run) (frames : UInt32) :
    Kept { run with desk := (run.desk.begin scene agent frames).1 } := by
  rw [Desk.begin]
  split
  · exact kept
  · split
    · exact kept
    · split
      · exact kept
      · split
        · exact kept
        · rename_i closed
          refine ⟨kept.sound.update rfl ?_, kept.tickets, ?_⟩
          · intro one same
            cases same
            exact ⟨fun _ => rfl, nofun⟩
          · intro other
            have before := kept.requests other
            by_cases same : other = agent
            · subst same
              rw [Desk.pending, closed, reqIds] at before
              rw [pending_update rfl]
              exact before
            · rw [pending_update_of_ne rfl same]
              exact before

theorem batches_abortByAgent (desk : Desk ω) (agent : UInt64) :
    (desk.abortByAgent agent).1.batches = desk.batches := by
  rw [Desk.abortByAgent]
  split <;> rfl

variable [DecidableEq ω] {moments : Nat → Moment ω}

theorem tickets_commit (desk : Desk ω) (scene : Scene ω) (moments : Nat → Moment ω)
    (agent : UInt64) :
    ((desk.commit scene moments agent).spent ++
      (desk.commit scene moments agent).desk.batches.tickets).Perm desk.batches.tickets := by
  rw [Desk.commit]
  dsimp only
  split
  · exact .refl _
  · split
    · exact .refl _
    · split
      · exact .refl _
      · split
        · exact .refl _
        · exact tickets_deliver

theorem batches_queue (desk : Desk ω) (scene : Scene ω) (req : Request) :
    (desk.queue scene req).1.batches = desk.batches := by
  rw [Desk.queue]
  split
  · rfl
  · split
    · rfl
    · dsimp only
      split
      · rfl
      · split <;> rfl

theorem kept_step (kept : Kept run) (event : Event ω) :
    Kept (run.step event) := by
  cases event with
  | approved agent task targets =>
    refine ⟨kept.sound, ?_, kept.requests⟩
    intro ticket
    have before := kept.tickets ticket
    rw [Run.step]
    dsimp only
    rw [tickets_approved, List.count_append, List.count_append]
    omega
  | acts moment req =>
    rw [Run.step]
    split
    · rename_i batch found
      have settles := settles_queue kept.sound moment.scene req
        (found ▸ Option.some_ne_none batch)
      refine ⟨settles.sound, ?_, requests_settle kept settles⟩
      intro ticket
      have before := kept.tickets ticket
      rw [← batches_queue run.desk moment.scene req] at before
      exact before
    · refine ⟨kept.sound, ?_, kept.requests⟩
      intro ticket
      have before := kept.tickets ticket
      have taken := (tickets_submit moment run.desk.batches (run.desk.seats req.agent)
        req).count_eq ticket
      rw [List.count_append] at taken
      dsimp only
      rw [List.count_append]
      omega
  | begins scene agent frames => exact kept_begin kept frames
  | commits scene moments agent =>
    have settles := settles_commit kept.sound scene moments agent
    refine ⟨settles.sound, ?_, requests_settle kept settles⟩
    intro ticket
    have before := kept.tickets ticket
    have taken := (tickets_commit run.desk scene moments agent).count_eq ticket
    rw [List.count_append] at taken
    rw [Run.step]
    dsimp only [Run.settle]
    rw [List.count_append]
    omega
  | aborts agent =>
    have settles := settles_abortByAgent kept.sound agent
    refine ⟨settles.sound, ?_, requests_settle kept settles⟩
    intro ticket
    have before := kept.tickets ticket
    rw [← batches_abortByAgent run.desk agent] at before
    exact before
  | seated agent seat => exact ⟨kept.sound, kept.tickets, kept.requests⟩
  | removed agent =>
    rw [Run.step]
    split
    · exact kept
    · exact kept_drop kept agent
  | forgotten agent =>
    have dropped := kept_drop kept agent
    refine ⟨dropped.sound, ?_, dropped.requests⟩
    intro ticket
    have before := kept.tickets ticket
    have fewer := (tickets_forget run.desk.batches agent).count_le ticket
    exact (Nat.add_le_add_left fewer _).trans before

theorem kept_after (events : List (Event ω)) : Kept (Run.after events) := by
  induction events using List.reverseRecOn with
  | nil => exact kept_default
  | append_singleton past event induction =>
    rw [Run.after, List.foldl_append]
    exact kept_step induction event

theorem waiting_step (sound : run.desk.Sound) {event : Event ω} (steady : Steady run event)
    (agent : UInt64) : ((run.step event).tally agent).waiting = (run.tally agent).waiting := by
  have settle : ∀ other arrived settled desk, Replied settled →
      ((run.settle other arrived settled desk).tally agent).waiting =
        (run.tally agent).waiting := by
    intro other arrived settled desk replied
    dsimp only [Run.settle]
    by_cases same : agent = other
    · subst same
      rw [Function.update_self, waits_of_replied replied, List.append_nil]
    · rw [Function.update_of_ne same]
  have drop : ∀ other, ((run.drop other).tally agent).waiting = (run.tally agent).waiting := by
    intro other
    dsimp only [Run.drop]
    by_cases same : agent = other
    · subst same
      rw [Function.update_self]
    · rw [Function.update_of_ne same]
  cases event with
  | approved | begins | seated => rfl
  | acts moment req =>
    rw [Run.step]
    split
    · exact settle _ _ _ _ replied_queue
    · rfl
  | commits scene moments other =>
    exact settle other [] _ (run.desk.commit scene moments other).desk
      (replied_commit sound steady)
  | aborts other => exact settle _ _ _ _ replied_abortByAgent
  | removed other =>
    rw [Run.step]
    split
    · rfl
    · exact drop other
  | forgotten other => exact drop other

theorem waiting_after {events : List (Event ω)}
    (steady : Along Run.step Steady Run.default events) (agent : UInt64) :
    ((Run.after events).tally agent).waiting = [] := by
  induction events using List.reverseRecOn with
  | nil => rfl
  | append_singleton past event induction =>
    rw [along_snoc] at steady
    rw [Run.after, List.foldl_append]
    exact (waiting_step (kept_after past).sound steady.2 agent).trans (induction steady.1)

/-- A target that was approved is used at most once, by the agent and the task it was
approved for, and every queued request is answered once, waits for its own answer, is
still queued or went with its seat. Where commits are steady none is left to wait, and a
batch whose dry run accepts it wants no token that is not there. -/
theorem batches_keep (events : List (Event ω)) :
    (∀ ticket, (Run.after events).spent.count ticket ≤ (Run.after events).issued.count ticket) ∧
      (∀ agent,
        let tally := (Run.after events).tally agent
        tally.queued.Perm (tally.answered ++ tally.waiting ++ (Run.after events).desk.pending agent ++
          tally.dropped)) ∧
      (Along Run.step Steady Run.default events →
        (∀ agent, ((Run.after events).tally agent).waiting = []) ∧
          ∀ past later scene moments agent, events = past ++ .commits scene moments agent :: later →
            Accepts (Run.after past).desk scene agent →
              ∀ one ∈ ((Run.after past).desk.commit scene moments agent).settled,
                ∃ status detail, one.fate = .replied status detail ∧ ¬RanOut status) := by
  have kept := kept_after events
  refine ⟨?_, kept.requests, ?_⟩
  · intro ticket
    exact (Nat.le_add_right _ _).trans (kept.tickets ticket)
  · intro steady
    refine ⟨waiting_after steady, ?_⟩
    intro past later scene moments agent split accepts
    rw [split, along_append] at steady
    have ⟨_, now, _⟩ := steady
    exact settled_of_accepts (kept_after past).sound now accepts

end

/-- Every window is reached by its handle, and a key press prompts. -/
def promptsKeys (compatLock : Option UInt64) : Scene UInt64 where
  paused := false
  known := true
  task := none
  held := ["seat.atomic"]
  actView := fun _ => some ⟨some, fun _ _ => none, fun _ => true⟩
  decide := fun cap _ _ => if cap = "seat.key" then ⟨.prompt, "ask"⟩ else ⟨.allow, "allow"⟩
  existingHandle := some
  generation := fun _ => 0
  alive := fun _ => true
  placed := fun _ => true
  compatLock
  locked := false
  now := 0

def arrives (compatLock : Option UInt64) : Moment UInt64 :=
  ⟨promptsKeys compatLock, true, .ok "", false, .parked⟩

/-- One target is approved, and a batch focuses it and presses a key. -/
def focusThenKey (compatLock : Option UInt64) : List (Event UInt64) :=
  [.seated 1 ⟨some 2, none⟩, .approved 1 none [(1, 0)], .begins (promptsKeys compatLock) 1 0,
    .acts (arrives compatLock) ⟨1, 2, .focus 1, true, 0, 0⟩,
    .acts (arrives compatLock) ⟨1, 3, .key 30 true 0, true, 65537, 0⟩]

/-- With no lock the key goes where the batch put the focus. -/
theorem batches_keep_unlocked :
    (∀ agent, ((Run.after (focusThenKey none ++
      [.commits (promptsKeys none) (fun _ => arrives none) 1])).tally agent).waiting = []) ∧
      ∀ one ∈ ((Run.after (focusThenKey none)).desk.commit (promptsKeys none)
        (fun _ => arrives none) 1).settled,
        ∃ status detail, one.fate = .replied status detail ∧ ¬RanOut status := by
  have steady : Along Run.step Steady Run.default
      (focusThenKey none ++ [.commits (promptsKeys none) (fun _ => arrives none) 1]) := by
    rw [along_snoc]
    refine ⟨⟨trivial, trivial, trivial, trivial, trivial, trivial⟩, ?_, ?_⟩
    · exact fun _ => ⟨rfl, rfl, rfl, rfl, rfl, rfl⟩
    · intro batch _
      exact follows_of_keyboard rfl rfl rfl _
  have kept := (batches_keep _).2.2 steady
  exact ⟨kept.1, kept.2 (focusThenKey none) [] _ _ 1 rfl ⟨_, rfl, rfl, rfl, rfl⟩⟩

/-- An agent that holds a compat lock on one window presses its key there, whatever its
batch focused: the dry run counted the approved target, and the step wants another. -/
theorem locked_batch_runs_out :
    Accepts (Run.after (focusThenKey (some 2))).desk (promptsKeys (some 2)) 1 ∧
      ((Run.after (focusThenKey (some 2))).desk.commit (promptsKeys (some 2))
        (fun _ => arrives (some 2)) 1).settled =
        [⟨2, .replied .ok ""⟩, ⟨3, .replied .batchExhausted ""⟩] :=
  ⟨⟨_, rfl, rfl, rfl, rfl⟩, by decide +kernel⟩

end EclipseOS.Abyss.Batching
