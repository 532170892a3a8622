import EclipseOS.Foundation.History
import EclipseOS.PolicyEval.Link

/-! # Drafts of a commit slot

A client may set a slot's draft at any rate; the compositor takes one at most every tenth of a
second, the latest one winning, and holds a newer one back on a timer. -/

namespace EclipseOS.Abyss.Drafts

open Foundation

def STATEMENT_MAX : Nat := 1000

def DRAFT_INTERVAL : Nat := 100000000

structure Draft where
  package : String
  statement : String
  deadlineS : UInt32
  narrowing : List UInt8
  continuation : String
  resumes : String
  workspace : UInt32
  account : String
  deriving DecidableEq

def Draft.empty : Draft := ⟨"", "", 0, [], "", "", 0, ""⟩

inductive Kind where
  | taskCommit
  | taskUnpause
  deriving DecidableEq

structure Slot where
  kind : Kind
  pos : Int32 × Int32
  draft : Draft
  unpause : String
  /-- Bumped on every change the preview depends on. -/
  revision : UInt64
  /-- The latest draft held back by the rate limit. -/
  pending : Option Draft
  lastApplied : Option Nat
  timer : Bool
  deriving DecidableEq

/-- What the rest of the compositor and the client are told. -/
inductive Call where
  | applied (draft : Draft) (now : Nat)
  | draftChanged
  | slotMoved
  | slotGone
  | refused
  | cancelled
  | postError (code : Nat) (text : String)
  deriving DecidableEq

/-- A slot, the time, and when the slot's timer is due, if one is armed. -/
structure World where
  now : Nat
  slot : Option Slot
  due : Option Nat
  log : List Call
  deriving DecidableEq

inductive Request where
  | setDraft (package statement : String) (deadlineS : UInt32) (narrowing : List UInt8)
      (continuation resumes : String) (workspace : UInt32)
  | setAccount (account : String)
  | setUnpause (taskId : String)
  | move (x y : Int32)
  | cancel
  | destroy
  deriving DecidableEq

/-- A request arrives, where the event loop would arm a timer for it or not; or the loop runs a
timer that is due. -/
inductive Event where
  | request (request : Request) (arms : Bool)
  | fire
  deriving DecidableEq

def BAD_KIND : Nat := 3
def DRAFT_TOO_LARGE : Nat := 4
def BAD_ACCOUNT : Nat := 5

namespace World

def tell (w : World) (calls : List Call) : World := { w with log := w.log ++ calls }

/-- Make `draft` the slot's draft and tell the rest. -/
def applyDraft (w : World) (s : Slot) (draft : Draft) : World :=
  { w with slot := some { s with
      draft := draft, pending := none, revision := s.revision + 1, lastApplied := some w.now }
  }.tell [.applied draft w.now, .draftChanged]

/-- Apply the draft the rate limit held back, if one is. -/
def flushDraft (w : World) (s : Slot) : World :=
  match s.pending with
  | some draft => w.applyDraft { s with timer := false, pending := none } draft
  | none => { w with slot := some { s with timer := false } }

end World

/-- The draft the slot will hold once the rate limit lets it. -/
def Slot.latestDraft (s : Slot) : Draft := s.pending.getD s.draft

/-- How long the rate limit makes a draft wait. -/
def Slot.wait (s : Slot) (now : Nat) : Option Nat :=
  match s.lastApplied with
  | some t => if now - t < DRAFT_INTERVAL then some (DRAFT_INTERVAL - (now - t)) else none
  | none => none

namespace World

/-- Apply now if the limit allows, else keep only the latest draft and flush it on a timer. -/
def submitDraft (w : World) (s : Slot) (draft : Draft) (arms : Bool) : World :=
  match s.wait w.now with
  | none => w.applyDraft s draft
  | some wait =>
    if s.timer then { w with slot := some { s with pending := some draft } }
    else if arms then
      { w with slot := some { s with pending := some draft, timer := true }
               due := some (w.now + wait) }
    else w.flushDraft { s with pending := some draft, timer := true }

/-- The slot is gone; a timer of it finds nothing. -/
def cancelSlot (w : World) : World := { w with slot := none }.tell [.slotGone]

def request (w : World) (s : Slot) (arms : Bool) : Request → World
  | .setDraft package statement deadlineS narrowing continuation resumes workspace =>
    if s.kind ≠ .taskCommit then
      w.tell [.postError BAD_KIND "set_draft needs a task_commit slot"]
    else if statement.length > STATEMENT_MAX then
      w.tell [.postError DRAFT_TOO_LARGE "statement over 1000 characters"]
    else if continuation ≠ "" ∧ resumes ≠ "" then
      { w with slot := some { s with
          pending := none, draft := .empty, revision := s.revision + 1 }
      }.tell [.draftChanged, .refused]
    else w.submitDraft s ⟨package, statement, deadlineS, narrowing, continuation, resumes,
      workspace, s.latestDraft.account⟩ arms
  | .setAccount account =>
    if s.kind ≠ .taskCommit then
      w.tell [.postError BAD_KIND "set_account needs a task_commit slot"]
    else if PolicyEval.accountOk account = false then
      w.tell [.postError BAD_ACCOUNT "account outside [A-Za-z0-9_-]\x7b0,32\x7d"]
    else if s.latestDraft.account = account then w
    else w.submitDraft s { s.latestDraft with account := account } arms
  | .setUnpause taskId =>
    if s.kind ≠ .taskUnpause then
      w.tell [.postError BAD_KIND "set_unpause needs a task_unpause slot"]
    else
      { w with slot := some { s with unpause := taskId, revision := s.revision + 1 }
      }.tell [.draftChanged]
  | .move x y =>
    { w with slot := some { s with pos := (x, y), revision := s.revision + 1 }
    }.tell [.slotMoved]
  | .cancel =>
    { w with slot := some { s with
        draft := .empty, unpause := "", pending := none, revision := s.revision + 1 }
    }.tell [.draftChanged, .cancelled]
  | .destroy => w.cancelSlot

def fire (w : World) : World :=
  match w.due with
  | some due =>
    if due ≤ w.now then
      match w.slot with
      | some s => { w with due := none }.flushDraft s
      | none => { w with due := none }
    else w
  | none => w

def handle (w : World) : Event → World
  | .request request arms =>
    match w.slot with
    | some s => w.request s arms request
    | none => w
  | .fire => w.fire

def step (w : World) (input : Nat × Event) : World :=
  { w with now := w.now + input.1 }.handle input.2

def start (kind : Kind) (pos : Int32 × Int32) : World :=
  ⟨0, some ⟨kind, pos, .empty, "", 0, none, none, false⟩, none, []⟩

def run (kind : Kind) (pos : Int32 × Int32) (inputs : List (Nat × Event)) : World :=
  inputs.foldl step (start kind pos)

def applications (w : World) : List Nat :=
  w.log.filterMap fun
    | .applied _ now => some now
    | _ => none

end World

/-! ## What the slot's draft is to be -/

/-- What an event makes of the draft the client means. -/
def submitted (kind : Kind) (draft : Draft) : Event → Draft
  | .request (.setDraft package statement deadlineS narrowing continuation resumes workspace) _ =>
    if kind ≠ .taskCommit ∨ statement.length > STATEMENT_MAX then draft
    else if continuation ≠ "" ∧ resumes ≠ "" then .empty
    else ⟨package, statement, deadlineS, narrowing, continuation, resumes, workspace,
      draft.account⟩
  | .request (.setAccount account) _ =>
    if kind ≠ .taskCommit ∨ PolicyEval.accountOk account = false then draft
    else { draft with account := account }
  | .request .cancel _ => .empty
  | _ => draft

/-- The draft that the events from some point on leave the client meaning. -/
def meant (kind : Kind) (draft : Draft) (inputs : List (Nat × Event)) : Draft :=
  inputs.foldl (fun draft input => submitted kind draft input.2) draft

def Clears (kind : Kind) : Event → Prop
  | .request (.setDraft _ statement _ _ continuation resumes _) _ =>
    kind = .taskCommit ∧ statement.length ≤ STATEMENT_MAX ∧ continuation ≠ "" ∧ resumes ≠ ""
  | .request .cancel _ => True
  | _ => False

def Changed (s s' : Slot) : Prop :=
  s.draft ≠ s'.draft ∨ s.unpause ≠ s'.unpause ∨ s.pos ≠ s'.pos

structure Limited (kind : Kind) (pos : Int32 × Int32) (inputs : List (Nat × Event)) : Prop where
  spaced : (World.run kind pos inputs).applications.Pairwise fun s t => s + DRAFT_INTERVAL ≤ t
  latest : ∀ s, (World.run kind pos inputs).slot = some s →
    (World.run kind pos inputs).due = none → s.draft = meant kind .empty inputs
  /-- What is applied after a cancel or a refusal was submitted after it. -/
  forgets : ∀ past input later, inputs = past ++ input :: later → Clears kind input.2 →
    ∃ told, (World.run kind pos inputs).log =
        (World.run kind pos (past ++ [input])).log ++ told ∧
      ∀ draft now, .applied draft now ∈ told →
        ∃ some' rest, later = some' ++ rest ∧ draft = meant kind .empty some'
  grows : ∀ past input later, inputs = past ++ input :: later →
    ∀ s s', (World.run kind pos past).slot = some s →
      (World.run kind pos (past ++ [input])).slot = some s' → Changed s s' →
        s.revision < s'.revision

/-! ## What the limiter keeps -/

/-- A request that gives the slot a draft of its own. -/
def Submits (s : Slot) : Request → Prop
  | .setDraft _ statement _ _ continuation resumes _ =>
    s.kind = .taskCommit ∧ statement.length ≤ STATEMENT_MAX ∧ (continuation = "" ∨ resumes = "")
  | .setAccount account =>
    s.kind = .taskCommit ∧ PolicyEval.accountOk account = true ∧ s.latestDraft.account ≠ account
  | _ => False

/-- Nothing is submitted while a timer is overdue, every timer is armed, and the revision has a
successor. -/
def Calm (w : World) (input : Nat × Event) : Prop :=
  ∀ s ∈ w.slot, s.revision.toNat + 1 < 18446744073709551616 ∧
    match input.2 with
    | .request request arms =>
      Submits s request → arms = true ∧ ∀ due ∈ w.due, w.now + input.1 < due
    | .fire => True

/-- What holds of a slot whose client means `draft`. -/
structure SlotPaced (kind : Kind) (draft : Draft) (w : World) (s : Slot) : Prop where
  kind : s.kind = kind
  latest : s.latestDraft = draft
  /-- What is held back has a timer. -/
  held : s.pending ≠ none → w.due ≠ none
  timer : s.timer = w.due.isSome
  applied : ∀ t ∈ w.applications, ∃ l ∈ s.lastApplied, t ≤ l
  past : ∀ l ∈ s.lastApplied, l ≤ w.now
  due : ∀ due ∈ w.due, ∃ l ∈ s.lastApplied, due = l + DRAFT_INTERVAL

structure Paced (kind : Kind) (draft : Draft) (w : World) : Prop where
  spaced : w.applications.Pairwise fun s t => s + DRAFT_INTERVAL ≤ t
  slot : ∀ s ∈ w.slot, SlotPaced kind draft w s

/-- A step leaves the slot paced, and has applied nothing but what the client means. -/
structure Paces (kind : Kind) (draft : Draft) (log : List Call) (w : World) : Prop where
  paced : Paced kind draft w
  told : ∃ told, w.log = log ++ told ∧
    ∀ applied now, .applied applied now ∈ told → applied = draft

variable {kind : Kind} {draft meansNow : Draft} {w : World} {s s' : Slot} {pos : Int32 × Int32}
  {inputs : List (Nat × Event)} {input : Nat × Event}

theorem Paces.refl (paced : Paced kind draft w) : Paces kind draft w.log w :=
  ⟨paced, [], (List.append_nil _).symm, fun _ _ member => by cases member⟩

theorem applications_tell {calls : List Call} {slot : Option Slot}
    (quiet : ∀ call ∈ calls, ∀ applied now, call ≠ .applied applied now) :
    ({ w with slot := slot }.tell calls).applications = w.applications := by
  have none : calls.filterMap (fun
      | .applied _ now => some now
      | _ => none) = [] := by
    rw [List.filterMap_eq_nil_iff]
    intro call member
    have := quiet call member
    cases call with
    | applied d now => exact absurd rfl (this d now)
    | _ => rfl
  rw [World.applications, World.tell, List.filterMap_append, none, List.append_nil,
    World.applications]

/-- The rest is told something other than an application, and the slot changes in what the
limiter does not look at. -/
theorem Paced.tell {calls : List Call} (paced : Paced kind draft w) (found : w.slot = some s)
    (quiet : ∀ call ∈ calls, ∀ applied now, call ≠ .applied applied now)
    (sameKind : s'.kind = s.kind) (latest : s'.latestDraft = meansNow)
    (held : s'.pending ≠ none → s.pending ≠ none) (timer : s'.timer = s.timer)
    (last : s'.lastApplied = s.lastApplied) :
    Paces kind meansNow w.log ({ w with slot := some s' }.tell calls) := by
  have old := paced.slot s found
  have times := @applications_tell w _ (some s') quiet
  refine ⟨⟨?_, fun t isSlot => ?_⟩, calls, rfl, fun applied now member =>
    absurd rfl (quiet _ member applied now)⟩
  · rw [times]
    exact paced.spaced
  · cases isSlot
    exact ⟨sameKind.trans old.kind, latest, fun pending => old.held (held pending),
      timer.trans old.timer, by rw [times, last]; exact old.applied,
      by rw [last]; exact old.past, by rw [last]; exact old.due⟩

theorem applications_applyDraft :
    (w.applyDraft s draft).applications = w.applications ++ [w.now] := by
  simp [World.applications, World.applyDraft, World.tell, List.filterMap_append]

theorem paces_applyDraft (spaced : w.applications.Pairwise fun s t => s + DRAFT_INTERVAL ≤ t)
    (before : ∀ t ∈ w.applications, t + DRAFT_INTERVAL ≤ w.now) (isKind : s.kind = kind)
    (idle : s.timer = false) (none : w.due = none) :
    Paces kind draft w.log (w.applyDraft s draft) := by
  refine ⟨⟨?_, fun t isSlot => ?_⟩, [.applied draft w.now, .draftChanged], rfl, ?_⟩
  · rw [applications_applyDraft, List.pairwise_append]
    refine ⟨spaced, List.pairwise_singleton _ _, fun t member u new => ?_⟩
    rw [List.mem_singleton.mp new]
    exact before t member
  · cases isSlot
    refine ⟨isKind, rfl, fun pending => absurd rfl pending, ?_, ?_, ?_, ?_⟩
    · exact idle.trans (by rw [World.applyDraft, World.tell, none]; rfl)
    · intro t member
      rw [applications_applyDraft] at member
      refine ⟨w.now, rfl, ?_⟩
      rcases List.mem_append.mp member with old | new
      · have := before t old
        omega
      · rw [List.mem_singleton.mp new]
    · intro l isLast
      cases isLast
      exact le_refl _
    · intro due armed
      rw [World.applyDraft, World.tell, none] at armed
      cases armed
  · intro applied now member
    simp only [List.mem_cons, Call.applied.injEq, List.not_mem_nil, or_false, reduceCtorEq]
      at member
    exact member.1

theorem SlotPaced.spaced (paced : SlotPaced kind draft w s) (now : s.wait w.now = none) :
    ∀ t ∈ w.applications, t + DRAFT_INTERVAL ≤ w.now := by
  intro t member
  rcases paced.applied t member with ⟨l, isLast, after⟩
  have past := paced.past l isLast
  rw [Slot.wait, Option.mem_def.mp isLast] at now
  dsimp only at now
  split_ifs at now with soon
  omega

theorem paces_submitDraft (paced : Paced kind draft w) (found : w.slot = some s)
    (early : ∀ due ∈ w.due, w.now < due) :
    Paces kind meansNow w.log (w.submitDraft s meansNow true) := by
  have old := paced.slot s found
  rw [World.submitDraft]
  cases waits : s.wait w.now with
  | none =>
    have unarmed : w.due = none := by
      rw [Option.eq_none_iff_forall_not_mem]
      intro due armed
      have := early due armed
      rcases old.due due armed with ⟨l, isLast, rfl⟩
      have past := old.past l isLast
      rw [Slot.wait, Option.mem_def.mp isLast] at waits
      dsimp only at waits
      split_ifs at waits with soon
      omega
    have idle : s.timer = false := by rw [old.timer, unarmed]; rfl
    exact paces_applyDraft paced.spaced (old.spaced waits) old.kind idle unarmed
  | some wait =>
    have last : ∃ l ∈ s.lastApplied, w.now + wait = l + DRAFT_INTERVAL := by
      rw [Slot.wait] at waits
      cases isLast : s.lastApplied with
      | none =>
        rw [isLast] at waits
        cases waits
      | some l =>
        rw [isLast] at waits
        dsimp only at waits
        have past := old.past l isLast
        split_ifs at waits with soon
        cases waits
        exact ⟨l, rfl, by omega⟩
    dsimp only
    cases isArmed : s.timer with
    | true =>
      rw [if_pos rfl]
      refine ⟨⟨paced.spaced, fun t isSlot => ?_⟩, [], (List.append_nil _).symm,
        fun _ _ member => by cases member⟩
      cases isSlot
      refine ⟨old.kind, rfl, fun _ unarmed => ?_, isArmed.symm.trans old.timer, old.applied,
        old.past, old.due⟩
      rw [old.timer, show w.due = none from unarmed] at isArmed
      cases isArmed
    | false =>
      rw [if_neg Bool.false_ne_true, if_pos rfl]
      refine ⟨⟨paced.spaced, fun t isSlot => ?_⟩, [], (List.append_nil _).symm,
        fun _ _ member => by cases member⟩
      cases isSlot
      refine ⟨old.kind, rfl, fun _ => by simp, rfl, old.applied, old.past, ?_⟩
      intro due armed
      cases armed
      exact last

theorem paces_fire (paced : Paced kind draft w) : Paces kind draft w.log w.fire := by
  rw [World.fire]
  cases isDue : w.due with
  | none => exact .refl paced
  | some due =>
    dsimp only
    split_ifs with past
    · cases found : w.slot with
      | none =>
        refine ⟨⟨paced.spaced, fun t isSlot => ?_⟩, [], (List.append_nil _).symm,
          fun _ _ member => by cases member⟩
        cases isSlot
      | some s =>
        have old := paced.slot s found
        dsimp only
        rw [World.flushDraft]
        cases waits : s.pending with
        | none =>
          refine ⟨⟨paced.spaced, fun t isSlot => ?_⟩, [], (List.append_nil _).symm,
            fun _ _ member => by cases member⟩
          cases isSlot
          refine ⟨old.kind, ?_, fun pending => absurd rfl pending, rfl, old.applied,
            old.past, fun due armed => by cases armed⟩
          have latest := old.latest
          rw [Slot.latestDraft, waits] at latest
          exact latest
        | some held =>
          have means : held = draft := by
            rw [← old.latest, Slot.latestDraft, waits]
            rfl
          have spaced : ∀ t ∈ w.applications, t + DRAFT_INTERVAL ≤ w.now := by
            intro t member
            rcases old.applied t member with ⟨l, isLast, after⟩
            rcases old.due due isDue with ⟨l', isLast', rfl⟩
            have same := Option.mem_unique isLast isLast'
            omega
          rw [means]
          exact paces_applyDraft (w := ⟨w.now, some s, none, w.log⟩)
            (s := { s with timer := false, pending := none }) paced.spaced spaced old.kind
            rfl rfl
    · exact .refl paced

theorem paces_request {arms : Bool} {request : Request} (paced : Paced kind draft w)
    (found : w.slot = some s)
    (calm : Submits s request → arms = true ∧ ∀ due ∈ w.due, w.now < due) :
    Paces kind (submitted kind draft (.request request arms)) w.log (w.request s arms request) := by
  have old := paced.slot s found
  obtain rfl : s.kind = kind := old.kind
  have untouched : w = { w with slot := some s } := by rw [← found]
  -- An error is told and nothing else happens.
  have posted : ∀ code text, Paces s.kind draft w.log (w.tell [.postError code text]) := by
    intro code text
    have told : Paces s.kind draft w.log
        ({ w with slot := some s }.tell [.postError code text]) :=
      paced.tell found (by simp) rfl old.latest id rfl rfl
    rw [← untouched] at told
    exact told
  cases request with
  | setDraft package statement deadlineS narrowing continuation resumes workspace =>
    rw [World.request, submitted]
    by_cases commit : s.kind = .taskCommit
    · rw [if_neg (not_not.mpr commit)]
      by_cases long : statement.length > STATEMENT_MAX
      · rw [if_pos long, if_pos (.inr long)]
        exact posted _ _
      · rw [if_neg long, if_neg (fun either => either.elim (absurd commit) long)]
        by_cases both : continuation ≠ "" ∧ resumes ≠ ""
        · rw [if_pos both, if_pos both]
          exact paced.tell found (by simp) rfl rfl (fun pending => absurd rfl pending) rfl rfl
        · rw [if_neg both, if_neg both]
          have one : continuation = "" ∨ resumes = "" := by
            by_contra neither
            exact both (not_or.mp neither)
          rcases calm ⟨commit, not_lt.mp long, one⟩ with ⟨rfl, early⟩
          rw [old.latest]
          exact paces_submitDraft paced found early
    · rw [if_pos commit, if_pos (.inl commit)]
      exact posted _ _
  | setAccount account =>
    rw [World.request, submitted]
    by_cases commit : s.kind = .taskCommit
    · rw [if_neg (not_not.mpr commit)]
      by_cases bad : PolicyEval.accountOk account = false
      · rw [if_pos bad, if_pos (.inr bad)]
        exact posted _ _
      · rw [if_neg bad, if_neg (fun either => either.elim (absurd commit) bad), old.latest]
        by_cases same : draft.account = account
        · rw [if_pos same, ← same]
          exact .refl paced
        · rw [if_neg same]
          rcases calm ⟨commit, by simpa using bad, by rwa [old.latest]⟩ with
            ⟨rfl, early⟩
          exact paces_submitDraft paced found early
    · rw [if_pos commit, if_pos (.inl commit)]
      exact posted _ _
  | setUnpause taskId =>
    show Paces s.kind draft w.log _
    rw [World.request]
    split_ifs
    · exact posted _ _
    · exact paced.tell found (by simp) rfl old.latest id rfl rfl
  | move x y => exact paced.tell found (by simp) rfl old.latest id rfl rfl
  | cancel => exact paced.tell found (by simp) rfl rfl (fun pending => absurd rfl pending) rfl rfl
  | destroy =>
    refine ⟨⟨?_, fun t isSlot => by cases isSlot⟩, [.slotGone], rfl, by simp⟩
    rw [World.request, World.cancelSlot, applications_tell (by simp)]
    exact paced.spaced

theorem paces_step (paced : Paced kind draft w) (calm : Calm w input) :
    Paces kind (submitted kind draft input.2) w.log (w.step input) := by
  rcases input with ⟨elapsed, event⟩
  have later : Paced kind draft { w with now := w.now + elapsed } :=
    ⟨paced.spaced, fun s found =>
      have old := paced.slot s found
      ⟨old.kind, old.latest, old.held, old.timer, old.applied,
        fun l isLast => (old.past l isLast).trans (Nat.le_add_right _ _), old.due⟩⟩
  cases event with
  | request request arms =>
    rcases Option.eq_none_or_eq_some w.slot with found | ⟨s, found⟩
    · have handled : w.step (elapsed, .request request arms) =
          { w with now := w.now + elapsed } := by
        simp only [World.step, World.handle, found]
      rw [handled]
      refine ⟨⟨paced.spaced, fun t isSlot => ?_⟩, [], (List.append_nil _).symm,
        fun _ _ member => by cases member⟩
      rw [Option.mem_def, show _ = none from found] at isSlot
      cases isSlot
    · have handled : w.step (elapsed, .request request arms) =
          World.request { w with now := w.now + elapsed } s arms request := by
        simp only [World.step, World.handle, found]
      rw [handled]
      exact paces_request later found (calm s found).2
  | fire => exact paces_fire later

theorem paced_start : Paced kind .empty (World.start kind pos) := by
  refine ⟨.nil, fun s isSlot => ?_⟩
  cases isSlot
  exact ⟨rfl, rfl, fun pending => absurd rfl pending, rfl, (fun _ member => by cases member),
    (fun _ member => by cases member), (fun _ member => by cases member)⟩

theorem paced_foldl (paced : Paced kind draft w) (calm : Along World.step Calm w inputs) :
    Paced kind (meant kind draft inputs) (inputs.foldl World.step w) ∧
      ∃ told, (inputs.foldl World.step w).log = w.log ++ told ∧
        ∀ applied now, .applied applied now ∈ told →
          ∃ some' rest, inputs = some' ++ rest ∧ applied = meant kind draft some' := by
  induction inputs generalizing draft w with
  | nil => exact ⟨paced, [], (List.append_nil _).symm, fun _ _ member => by cases member⟩
  | cons input inputs induction =>
    have next := paces_step paced calm.1
    rcases next.told with ⟨told, grown, means⟩
    rcases induction next.paced calm.2 with ⟨after, later, grownLater, meansLater⟩
    refine ⟨after, told ++ later, ?_, fun applied now member => ?_⟩
    · rw [List.foldl_cons, grownLater, grown, List.append_assoc]
    · rcases List.mem_append.mp member with here | there
      · exact ⟨[input], inputs, rfl, means applied now here⟩
      · rcases meansLater applied now there with ⟨some', rest, rfl, isMeant⟩
        exact ⟨input :: some', rest, rfl, isMeant⟩

/-! ## The revision -/

/-- The revision is bumped, or nothing a preview depends on has changed. -/
def Bumps (s s' : Slot) : Prop :=
  s'.revision = s.revision + 1 ∨
    (s'.draft = s.draft ∧ s'.unpause = s.unpause ∧ s'.pos = s.pos)

theorem bumps_applyDraft {t : Slot} (same : t.revision = s.revision) :
    ∀ s' ∈ (w.applyDraft t draft).slot, Bumps s s' := by
  intro s' isSlot
  cases isSlot
  exact .inl (by rw [same])

theorem bumps_flushDraft {t : Slot} (same : t.revision = s.revision) (kept : t.draft = s.draft ∧
    t.unpause = s.unpause ∧ t.pos = s.pos) : ∀ s' ∈ (w.flushDraft t).slot, Bumps s s' := by
  rw [World.flushDraft]
  cases t.pending with
  | some held => exact bumps_applyDraft same
  | none =>
    intro s' isSlot
    cases isSlot
    exact .inr kept

theorem bumps_submitDraft {arms : Bool} :
    ∀ s' ∈ (w.submitDraft s draft arms).slot, Bumps s s' := by
  rw [World.submitDraft]
  cases s.wait w.now with
  | none => exact bumps_applyDraft rfl
  | some wait =>
    dsimp only
    split_ifs
    · intro s' isSlot
      cases isSlot
      exact .inr ⟨rfl, rfl, rfl⟩
    · intro s' isSlot
      cases isSlot
      exact .inr ⟨rfl, rfl, rfl⟩
    · exact bumps_flushDraft rfl ⟨rfl, rfl, rfl⟩

theorem bumps_request {arms : Bool} {request : Request} (found : w.slot = some s) :
    ∀ s' ∈ (w.request s arms request).slot, Bumps s s' := by
  have untouched : ∀ s' ∈ w.slot, Bumps s s' := by
    intro s' isSlot
    rw [found] at isSlot
    cases isSlot
    exact .inr ⟨rfl, rfl, rfl⟩
  have bumped : ∀ t : Slot, t.revision = s.revision + 1 → ∀ s' ∈ some t, Bumps s s' := by
    intro t next s' isSlot
    cases isSlot
    exact .inl next
  cases request with
  | setDraft package statement deadlineS narrowing continuation resumes workspace =>
    rw [World.request]
    split_ifs
    · exact untouched
    · exact untouched
    · exact bumped _ rfl
    · exact bumps_submitDraft
  | setAccount account =>
    rw [World.request]
    split_ifs
    · exact untouched
    · exact untouched
    · exact untouched
    · exact bumps_submitDraft
  | setUnpause taskId =>
    rw [World.request]
    split_ifs
    · exact untouched
    · exact bumped _ rfl
  | move x y => exact bumped _ rfl
  | cancel => exact bumped _ rfl
  | destroy =>
    intro s' isSlot
    cases isSlot

theorem bumps_fire (found : w.slot = some s) : ∀ s' ∈ w.fire.slot, Bumps s s' := by
  have untouched : ∀ s' ∈ w.slot, Bumps s s' := by
    intro s' isSlot
    rw [found] at isSlot
    cases isSlot
    exact .inr ⟨rfl, rfl, rfl⟩
  rw [World.fire]
  cases w.due with
  | none => exact untouched
  | some due =>
    dsimp only
    split_ifs
    · rw [found]
      exact bumps_flushDraft rfl ⟨rfl, rfl, rfl⟩
    · exact untouched

theorem bumps_step (found : w.slot = some s) : ∀ s' ∈ (w.step input).slot, Bumps s s' := by
  rcases input with ⟨elapsed, event⟩
  have later : World.slot { w with now := w.now + elapsed } = some s := found
  cases event with
  | request request arms =>
    have handled : w.step (elapsed, .request request arms) =
        World.request { w with now := w.now + elapsed } s arms request := by
      simp only [World.step, World.handle, found]
    rw [handled]
    exact bumps_request later
  | fire => exact bumps_fire later

theorem lt_of_bumps (bumps : Bumps s s') (changed : Changed s s')
    (room : s.revision.toNat + 1 < 18446744073709551616) : s.revision < s'.revision := by
  rcases bumps with next | ⟨draft, unpause, pos⟩
  · rw [next, UInt64.lt_iff_toNat_lt, UInt64.toNat_add]
    have one : (1 : UInt64).toNat = 1 := rfl
    omega
  · rcases changed with different | different | different
    · exact absurd draft.symm different
    · exact absurd unpause.symm different
    · exact absurd pos.symm different

/-- In a run of calm steps the limiter keeps its promises. -/
theorem limited (kind : Kind) (pos : Int32 × Int32) (inputs : List (Nat × Event))
    (calm : Along World.step Calm (World.start kind pos) inputs) : Limited kind pos inputs := by
  have paced := (paced_foldl paced_start calm).1
  refine ⟨paced.spaced, fun s found unarmed => ?_, ?_, ?_⟩
  · have old := paced.slot s found
    have none : s.pending = none := by
      by_contra pending
      exact old.held pending unarmed
    have latest := old.latest
    rw [Slot.latestDraft, none] at latest
    exact latest
  · intro past input later split clears
    subst split
    rw [along_append] at calm
    rcases calm with ⟨before, here, after⟩
    have upTo := (paced_foldl paced_start before).1
    have cleared := (paces_step upTo here).paced
    have empty : submitted kind (meant kind .empty past) input.2 = .empty := by
      rcases input with ⟨elapsed, event⟩
      cases event with
      | fire => exact absurd clears id
      | request request arms =>
        cases request with
        | setDraft =>
          rcases clears with ⟨rfl, short, both⟩
          rw [submitted, if_neg (by simpa using short), if_pos both]
        | cancel => rfl
        | _ => exact absurd clears id
    rw [empty] at cleared
    have told := (paced_foldl cleared after).2
    simpa only [World.run, List.foldl_append, List.foldl_cons, List.foldl_nil] using told
  · intro past input later split s s' found found' changed
    subst split
    rw [along_append] at calm
    have next : s' ∈ ((World.run kind pos past).step input).slot := by
      rw [World.run, List.foldl_append] at found'
      exact found'
    exact lt_of_bumps (bumps_step found s' next) changed (calm.2.1 s found).1

/-- A draft is applied, and one held back until its timer. -/
def heldBack : List (Nat × Event) :=
  [(0, .request (.setDraft "app" "first" 0 [] "" "" 0) true),
    (50000000, .request (.setDraft "app" "second" 0 [] "" "" 0) true), (50000000, .fire)]

theorem limited_heldBack :
    Along World.step Calm (World.start .taskCommit (0, 0)) heldBack ∧
      Limited .taskCommit (0, 0) heldBack := by
  have calm : Along World.step Calm (World.start .taskCommit (0, 0)) heldBack := by
    refine ⟨fun s found => ?_, fun s found => ?_, fun s found => ?_, trivial⟩
    · cases found
      exact ⟨by decide, fun _ => ⟨rfl, fun due armed => by cases armed⟩⟩
    · cases found
      exact ⟨by decide, fun _ => ⟨rfl, fun due armed => by cases armed⟩⟩
    · cases found
      exact ⟨by decide, trivial⟩
  exact ⟨calm, limited .taskCommit (0, 0) heldBack calm⟩

/-- A draft comes after the deadline of a held-back one but before its timer: it is applied, and
the timer is left for the next. -/
def lateTimer : List (Nat × Event) :=
  [(0, .request (.setDraft "app" "first" 0 [] "" "" 0) true),
    (50000000, .request (.setDraft "app" "second" 0 [] "" "" 0) true),
    (70000000, .request (.setDraft "app" "third" 0 [] "" "" 0) true),
    (10000000, .request (.setDraft "app" "fourth" 0 [] "" "" 0) true),
    (10000000, .fire)]

/-- Even where every timer is armed, two drafts are applied twenty milliseconds apart. -/
theorem lateTimer_hurries : ¬∀ kind pos inputs,
    (∀ input ∈ inputs, ∀ request arms, input.2 = Event.request request arms → arms = true) →
      Limited kind pos inputs := by
  intro all
  have limited := all .taskCommit (0, 0) lateTimer (by
    intro input member request arms isRequest
    simp only [lateTimer, List.mem_cons, List.not_mem_nil, or_false] at member
    rcases member with rfl | rfl | rfl | rfl | rfl <;> cases isRequest <;> rfl)
  have times : (World.run .taskCommit (0, 0) lateTimer).applications =
      [0, 120000000, 140000000] := by
    decide +kernel
  have spaced := limited.spaced
  rw [times] at spaced
  exact absurd spaced (by decide)

end EclipseOS.Abyss.Drafts
