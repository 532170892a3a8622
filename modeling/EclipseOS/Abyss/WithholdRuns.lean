import EclipseOS.Abyss.Withhold
import EclipseOS.Foundation.History
import Mathlib.Data.List.Count

/-! # Runs of withholding

The session's approvals along a run of settled configurations, prompts and answers: who
waits, what is on screen and what was answered. -/

namespace EclipseOS.Abyss.Withhold

open Foundation

variable {Hash : Type}

/-- What a prompt is known by; the model command's name is the store's. -/
abbrev Key (Hash : Type) := String × Hash

inductive Choice where
  | allow
  | notNow
  deriving DecidableEq

namespace WidgetApprovals

def shown (wa : WidgetApprovals Hash) : Kind → Option (Key Hash)
  | .widget => wa.onScreen
  | .modelCommand => wa.modelCommand.onScreen.map (MODEL_COMMAND_KEY, ·)
  | .quickAction => wa.quickActions.onScreen

def waiting (wa : WidgetApprovals Hash) : Kind → List (Key Hash)
  | .widget => wa.queue.map PendingWidget.key
  | .modelCommand =>
    if wa.modelCommand.queued then
      wa.modelCommand.withheld.toList.map fun p => (MODEL_COMMAND_KEY, p.hash)
    else []
  | .quickAction => wa.quickActions.queue.map PendingQuickAction.key

def withheldKeys (wa : WidgetApprovals Hash) : Kind → List (Key Hash)
  | .widget => wa.withheld.map (·.2.key)
  | .modelCommand => wa.modelCommand.withheld.toList.map fun p => (MODEL_COMMAND_KEY, p.hash)
  | .quickAction => wa.quickActions.withheld.map PendingQuickAction.key

/-- The keys whose last word, in this session, is a choice. -/
def answered (wa : WidgetApprovals Hash) (key : Key Hash) : Kind → Choice → Prop
  | .widget, .allow => key ∈ wa.granted
  | .widget, .notNow => key ∈ wa.declined
  | .modelCommand, .allow => key.1 = MODEL_COMMAND_KEY ∧ key.2 ∈ wa.modelCommand.granted
  | .modelCommand, .notNow => key.1 = MODEL_COMMAND_KEY ∧ key.2 ∈ wa.modelCommand.declined
  | .quickAction, .allow => key ∈ wa.quickActions.granted
  | .quickAction, .notNow => key ∈ wa.quickActions.declined

def promptClosed (wa : WidgetApprovals Hash) : Kind → WidgetApprovals Hash
  | .widget => { wa with toPrompts := wa.toPrompts.close }
  | .modelCommand => { wa with modelCommand := { wa.modelCommand with onScreen := none } }
  | .quickAction =>
    { wa with quickActions :=
        { wa.quickActions with toPrompts := wa.quickActions.toPrompts.close } }

variable [DecidableEq Hash]

/-- What an answer records of the subject it is for. -/
def record (wa : WidgetApprovals Hash) (key : Key Hash) : Kind → Choice → WidgetApprovals Hash
  | .widget, .allow => { wa with granted := insert key wa.granted }
  | .widget, .notNow => { wa with toPrompts := wa.toPrompts.decline key }
  | .modelCommand, .allow =>
    { wa with modelCommand :=
        { wa.modelCommand with granted := insert key.2 wa.modelCommand.granted } }
  | .modelCommand, .notNow =>
    { wa with modelCommand :=
        { wa.modelCommand with declined := insert key.2 wa.modelCommand.declined } }
  | .quickAction, .allow =>
    { wa with quickActions :=
        { wa.quickActions with granted := insert key wa.quickActions.granted } }
  | .quickAction, .notNow =>
    { wa with quickActions :=
        { wa.quickActions with toPrompts := wa.quickActions.toPrompts.decline key } }

/-- The owner answers the prompt on screen, which closes it. -/
def answer (wa : WidgetApprovals Hash) (kind : Kind) (choice : Choice) : WidgetApprovals Hash :=
  match wa.shown kind with
  | none => wa
  | some key => (wa.promptClosed kind).record key kind choice

/-- The next prompt of a kind, and what it is for. -/
def pull (wa : WidgetApprovals Hash) : Kind → WidgetApprovals Hash × Option (Key Hash)
  | .widget =>
    let (wa, subject) := nextPending wa
    (wa, subject.map PendingWidget.key)
  | .modelCommand =>
    let (modelCommand, subject) := nextPendingModelCommand wa.modelCommand
    ({ wa with modelCommand := modelCommand },
      subject.map fun p => (MODEL_COMMAND_KEY, p.hash))
  | .quickAction =>
    let (quickActions, subject) := nextPendingQuickAction wa.quickActions
    ({ wa with quickActions := quickActions }, subject.map PendingQuickAction.key)

end WidgetApprovals

/-- The approvals beside the live configuration. -/
structure Session (Hash : Type) where
  approvals : WidgetApprovals Hash
  live : Config

inductive Op (Hash : Type) where
  | settle (hooks : HookSet) (store : Kind → Approvals Hash) (next : Config)
  | nextPending (kind : Kind)
  | promptClosed (kind : Kind)
  | review (name : String)
  | answer (kind : Kind) (choice : Choice)

namespace Session

def start (live : Config) : Session Hash := ⟨.empty, live⟩

variable [DecidableEq Hash] [DeriveKey Hash]

def step (session : Session Hash) : Op Hash → Session Hash
  | .settle hooks store next =>
    let (approvals, live) := Withhold.settle session.approvals hooks store next
    ⟨approvals, live⟩
  | .nextPending kind => { session with approvals := (session.approvals.pull kind).1 }
  | .promptClosed kind => { session with approvals := session.approvals.promptClosed kind }
  | .review name =>
    { session with approvals := (Withhold.review session.approvals session.live name).1 }
  | .answer kind choice => { session with approvals := session.approvals.answer kind choice }

def run (live : Config) (ops : List (Op Hash)) : Session Hash := ops.foldl step (start live)

end Session

/-! ## What settling does to each kind -/

section
variable [DecidableEq Hash] [DeriveKey Hash] {wa : WidgetApprovals Hash} {hooks : HookSet}
  {store : Kind → Approvals Hash} {next : Config}

theorem settleModelCommand_next (mc : ModelCommandApproval Hash) (hooks : HookSet)
    (store : Approvals Hash) (next : Config) :
    (settleModelCommand mc hooks store next).2 = next ∨
      (settleModelCommand mc hooks store next).2 = { next with modelCommand := none } := by
  unfold settleModelCommand
  split
  · exact .inl rfl
  · dsimp only
    split
    · exact .inl rfl
    · exact .inr rfl

@[simp] theorem settleWidgets_modelCommand (store : Approvals Hash) :
    (settleWidgets wa hooks store next).1.modelCommand = wa.modelCommand := by
  unfold settleWidgets
  split <;> rfl

@[simp] theorem settleWidgets_quickActions (store : Approvals Hash) :
    (settleWidgets wa hooks store next).1.quickActions = wa.quickActions := by
  unfold settleWidgets
  split <;> rfl

@[simp] theorem settleWidgets_live (store : Approvals Hash) :
    (settleWidgets wa hooks store next).2.modelCommand = next.modelCommand ∧
      (settleWidgets wa hooks store next).2.quickActions = next.quickActions := by
  unfold settleWidgets dropUnhookedWidgets
  split
  · split <;> exact ⟨rfl, rfl⟩
  · exact ⟨rfl, rfl⟩

theorem settle_modelCommand : (settle wa hooks store next).1.modelCommand =
    (settleModelCommand wa.modelCommand hooks (store .modelCommand) next).1 := by
  simp [settle]

theorem settle_live_modelCommand : (settle wa hooks store next).2.modelCommand =
    (settleModelCommand wa.modelCommand hooks (store .modelCommand) next).2.modelCommand := by
  simp [settle]

theorem settleWidgets_congr (mc mc' : ModelCommandApproval Hash) (argv : Option Argv)
    (store : Approvals Hash) :
    let settled := settleWidgets { wa with modelCommand := mc } hooks store
      { next with modelCommand := argv }
    let other := settleWidgets { wa with modelCommand := mc' } hooks store next
    settled.1.toPrompts = other.1.toPrompts ∧ settled.1.withheld = other.1.withheld ∧
      settled.1.granted = other.1.granted ∧
      settled.2.customWidgets = other.2.customWidgets := by
  unfold settleWidgets dropUnhookedWidgets
  dsimp only
  split
  · split <;> exact ⟨rfl, rfl, rfl, rfl⟩
  · exact ⟨rfl, rfl, rfl, rfl⟩

theorem settle_widgets :
    let settled := settle wa hooks store next
    let widgets := settleWidgets wa hooks (store .widget) next
    settled.1.toPrompts = widgets.1.toPrompts ∧ settled.1.withheld = widgets.1.withheld ∧
      settled.1.granted = widgets.1.granted ∧
      settled.2.customWidgets = widgets.2.customWidgets := by
  unfold settle
  dsimp only
  rcases settleModelCommand_next wa.modelCommand hooks (store .modelCommand) next with
    same | same
  · rw [same]
    exact settleWidgets_congr _ _ next.modelCommand _
  · rw [same]
    exact settleWidgets_congr _ _ none _

theorem settleQuickActions_congr {other : Config} (qa : QuickActionApprovals Hash)
    (store : Approvals Hash) (same : other.quickActions = next.quickActions) :
    settleQuickActions qa hooks store other = settleQuickActions qa hooks store next := by
  unfold settleQuickActions
  rw [same]

theorem settle_quickActions : (settle wa hooks store next).1.quickActions =
    settleQuickActions wa.quickActions hooks (store .quickAction) next := by
  unfold settle
  dsimp only
  rw [settleWidgets_quickActions]
  apply settleQuickActions_congr
  rw [(settleWidgets_live _).2]
  rcases settleModelCommand_next wa.modelCommand hooks (store .modelCommand) next with
    same | same
  · rw [same]
  · rw [same]

end

/-! ## One prompt for each key -/

/-- No key waits twice, and none that is on screen waits. -/
structure Asks (wa : WidgetApprovals Hash) : Prop where
  widgets : wa.toPrompts.Sound PendingWidget.key
  quickActions : wa.quickActions.toPrompts.Sound PendingQuickAction.key
  modelCommand : ∀ p, wa.modelCommand.queued = true → wa.modelCommand.withheld = some p →
    wa.modelCommand.onScreen ≠ some p.hash

theorem asks_empty : Asks (WidgetApprovals.empty : WidgetApprovals Hash) :=
  ⟨Prompts.sound_empty, Prompts.sound_empty, nofun⟩

theorem Asks.apart {wa : WidgetApprovals Hash} (asks : Asks wa) (kind : Kind) :
    (wa.waiting kind).Nodup ∧ ∀ key, wa.shown kind = some key → key ∉ wa.waiting kind := by
  cases kind with
  | widget => exact ⟨asks.widgets.nodup, asks.widgets.apart⟩
  | quickAction => exact ⟨asks.quickActions.nodup, asks.quickActions.apart⟩
  | modelCommand =>
    unfold WidgetApprovals.waiting WidgetApprovals.shown
    dsimp only
    split
    · rename_i queued
      cases held : wa.modelCommand.withheld with
      | none => exact ⟨List.nodup_nil, fun _ _ => List.not_mem_nil⟩
      | some p =>
        refine ⟨List.nodup_singleton _, fun key isShown waits => ?_⟩
        have same := List.mem_singleton.mp waits
        rcases Option.map_eq_some_iff.mp isShown with ⟨h, onScreen, rfl⟩
        have hashes : h = p.hash := congrArg Prod.snd same
        exact asks.modelCommand p queued held (hashes ▸ onScreen)
    · exact ⟨List.nodup_nil, fun _ _ => List.not_mem_nil⟩

section
variable {wa : WidgetApprovals Hash}

theorem Asks.promptClosed (asks : Asks wa) (kind : Kind) : Asks (wa.promptClosed kind) := by
  cases kind with
  | widget => exact ⟨asks.widgets.close, asks.quickActions, asks.modelCommand⟩
  | modelCommand => exact ⟨asks.widgets, asks.quickActions, nofun⟩
  | quickAction => exact ⟨asks.widgets, asks.quickActions.close, asks.modelCommand⟩

variable [DecidableEq Hash]

theorem Asks.record (asks : Asks wa) (key : Key Hash) (kind : Kind) (choice : Choice) :
    Asks (wa.record key kind choice) := by
  cases kind with
  | widget =>
    cases choice with
    | allow => exact ⟨asks.widgets, asks.quickActions, asks.modelCommand⟩
    | notNow => exact ⟨asks.widgets.decline key, asks.quickActions, asks.modelCommand⟩
  | modelCommand => cases choice <;> exact ⟨asks.widgets, asks.quickActions, asks.modelCommand⟩
  | quickAction =>
    cases choice with
    | allow => exact ⟨asks.widgets, asks.quickActions, asks.modelCommand⟩
    | notNow => exact ⟨asks.widgets, asks.quickActions.decline key, asks.modelCommand⟩

theorem Asks.answer (asks : Asks wa) (kind : Kind) (choice : Choice) :
    Asks (wa.answer kind choice) := by
  unfold WidgetApprovals.answer
  split
  · exact asks
  · exact (asks.promptClosed kind).record _ kind choice

theorem nextPendingModelCommand_cases (mc : ModelCommandApproval Hash) :
    nextPendingModelCommand mc = (mc, none) ∨
      nextPendingModelCommand mc = ({ mc with queued := false }, none) ∨
      ∃ p, mc.onScreen = none ∧ mc.withheld = some p ∧
        nextPendingModelCommand mc =
          ({ mc with queued := false, onScreen := some p.hash }, some p) := by
  unfold nextPendingModelCommand
  split
  · exact .inl rfl
  · rename_i asked
    rw [not_or] at asked
    dsimp only
    split
    · exact .inr (.inl rfl)
    · rename_i p held
      split
      · exact .inr (.inl rfl)
      · exact .inr (.inr ⟨p, by simpa using asked.1, held, rfl⟩)

theorem Asks.pull (asks : Asks wa) (kind : Kind) : Asks (wa.pull kind).1 := by
  cases kind with
  | widget => exact ⟨asks.widgets.next, asks.quickActions, asks.modelCommand⟩
  | quickAction => exact ⟨asks.widgets, asks.quickActions.next, asks.modelCommand⟩
  | modelCommand =>
    refine ⟨asks.widgets, asks.quickActions, fun p => ?_⟩
    rcases nextPendingModelCommand_cases wa.modelCommand with same | same | ⟨_, -, -, same⟩
    all_goals
      change (nextPendingModelCommand wa.modelCommand).1.queued = true →
        (nextPendingModelCommand wa.modelCommand).1.withheld = some p →
        (nextPendingModelCommand wa.modelCommand).1.onScreen ≠ some p.hash
      rw [same]
    · exact asks.modelCommand p
    · exact nofun
    · exact nofun

theorem Asks.review (asks : Asks wa) (live : Config) (name : String) :
    Asks (Withhold.review wa live name).1 := by
  unfold Withhold.review
  split
  · exact asks
  · exact ⟨asks.widgets.again _, asks.quickActions, asks.modelCommand⟩

variable [DeriveKey Hash] {hooks : HookSet} {next : Config}

theorem settleWidgets_sound (sound : wa.toPrompts.Sound PendingWidget.key)
    (store : Approvals Hash) :
    (settleWidgets wa hooks store next).1.toPrompts.Sound PendingWidget.key := by
  unfold settleWidgets
  split
  · exact sound.sublist (List.nil_sublist _)
  · exact sound.refill _

theorem settleQuickActions_sound {qa : QuickActionApprovals Hash}
    (sound : qa.toPrompts.Sound PendingQuickAction.key) (store : Approvals Hash) :
    (settleQuickActions qa hooks store next).toPrompts.Sound PendingQuickAction.key := by
  unfold settleQuickActions
  split
  · exact sound.sublist (List.nil_sublist _)
  · exact sound.refill _

theorem settleModelCommand_apart (mc : ModelCommandApproval Hash) (store : Approvals Hash)
    (p : PendingModelCommand Hash) :
    let settled := (settleModelCommand mc hooks store next).1
    settled.queued = true → settled.withheld = some p → settled.onScreen ≠ some p.hash := by
  unfold settleModelCommand
  split
  · exact nofun
  · dsimp only
    split
    · exact nofun
    · intro queued held
      cases held
      exact (of_decide_eq_true queued).2.1

theorem Asks.settle (asks : Asks wa) (store : Kind → Approvals Hash) :
    Asks (Withhold.settle wa hooks store next).1 where
  widgets := by
    rw [settle_widgets.1]
    exact settleWidgets_sound asks.widgets _
  quickActions := by
    rw [settle_quickActions]
    exact settleQuickActions_sound asks.quickActions _
  modelCommand := by
    rw [settle_modelCommand]
    exact settleModelCommand_apart _ _

theorem Asks.step {session : Session Hash} (asks : Asks session.approvals) (op : Op Hash) :
    Asks (session.step op).approvals := by
  cases op with
  | settle hooks store next => exact asks.settle store
  | nextPending kind => exact asks.pull kind
  | promptClosed kind => exact asks.promptClosed kind
  | review name => exact asks.review session.live name
  | answer kind choice => exact asks.answer kind choice

theorem asks_run (live : Config) (past : List (Op Hash)) :
    Asks (Session.run live past).approvals := by
  induction past using List.reverseRecOn with
  | nil => exact asks_empty
  | append_singleton past op induction =>
    rw [Session.run, List.foldl_append]
    exact induction.step op

end

/-! ## What was answered -/

section
variable [DecidableEq Hash] [DeriveKey Hash]

/-- A prompt of a kind for a key was on screen, and the owner's answer was a choice. -/
def Answered (live : Config) (past : List (Op Hash)) (kind : Kind) (choice : Choice)
    (key : Key Hash) : Prop :=
  ∃ before after, past = before ++ .answer kind choice :: after ∧
    (Session.run live before).approvals.shown kind = some key

/-- The key of a withheld widget's prompt, which a review asks about again. -/
def Session.reviewed (session : Session Hash) : Kind → Op Hash → Option (Key Hash)
  | .widget, .review name =>
    (session.approvals.withheld.find? (·.2.name = name)).map (·.2.key)
  | _, _ => none

/-- A prompt was answered with Not now, and not asked for again since. -/
def Declined (live : Config) (past : List (Op Hash)) (kind : Kind) (key : Key Hash) : Prop :=
  ∃ before after, past = before ++ .answer kind .notNow :: after ∧
    (Session.run live before).approvals.shown kind = some key ∧
    ∀ middle op rest, after = middle ++ op :: rest →
      (Session.run live (before ++ .answer kind .notNow :: middle)).reviewed kind op ≠ some key

variable {wa : WidgetApprovals Hash} {kind other : Kind} {choice choice' : Choice}
  {key : Key Hash} {session : Session Hash}

omit [DecidableEq Hash] [DeriveKey Hash] in
theorem answered_promptClosed :
    (wa.promptClosed other).answered key kind choice ↔ wa.answered key kind choice := by
  cases other <;> cases kind <;> cases choice <;> rfl

omit [DeriveKey Hash] in
theorem answered_record {answered : Key Hash} (isShown : wa.shown other = some answered)
    (holds : ((wa.promptClosed other).record answered other choice').answered key kind choice) :
    wa.answered key kind choice ∨ other = kind ∧ choice' = choice ∧ answered = key := by
  cases other with
  | modelCommand =>
    rcases Option.map_eq_some_iff.mp isShown with ⟨h, -, rfl⟩
    cases choice' <;> cases kind <;> cases choice <;> try exact .inl holds
    all_goals
      rcases holds with ⟨name, holds⟩
      rcases Finset.mem_insert.mp holds with same | before
      · exact .inr ⟨rfl, rfl, Prod.ext name.symm same.symm⟩
      · exact .inl ⟨name, before⟩
  | _ =>
    cases choice' <;> cases kind <;> cases choice <;> try exact .inl holds
    all_goals
      rcases Finset.mem_insert.mp holds with same | before
      · exact .inr ⟨rfl, rfl, same.symm⟩
      · exact .inl before

omit [DeriveKey Hash] in
theorem answered_pull :
    (wa.pull other).1.answered key kind choice ↔ wa.answered key kind choice := by
  cases other with
  | widget =>
    cases kind <;> cases choice <;> try rfl
    change key ∈ (wa.toPrompts.next _).1.declined ↔ key ∈ wa.declined
    rw [Prompts.next_declined]
  | quickAction =>
    cases kind <;> cases choice <;> try rfl
    change key ∈ (wa.quickActions.toPrompts.next _).1.declined ↔ key ∈ wa.quickActions.declined
    rw [Prompts.next_declined]
  | modelCommand =>
    cases kind <;> cases choice <;> try rfl
    all_goals
      rcases nextPendingModelCommand_cases wa.modelCommand with same | same | ⟨_, -, -, same⟩
      all_goals
        unfold WidgetApprovals.pull WidgetApprovals.answered
        dsimp only
        rw [same]

omit [DeriveKey Hash] in
theorem answered_review {live : Config} {name : String}
    (holds : (Withhold.review wa live name).1.answered key kind choice) :
    wa.answered key kind choice ∧ (choice = .notNow →
      (⟨wa, live⟩ : Session Hash).reviewed kind (.review name) ≠ some key) := by
  unfold Withhold.review at holds
  split at holds
  · rename_i missing
    refine ⟨holds, fun _ => ?_⟩
    cases kind with
    | widget => simp [Session.reviewed, missing]
    | modelCommand => exact nofun
    | quickAction => exact nofun
  · rename_i i w found
    cases kind with
    | modelCommand =>
      cases choice with
      | allow => exact ⟨holds, nofun⟩
      | notNow => exact ⟨holds, fun _ => nofun⟩
    | quickAction =>
      cases choice with
      | allow => exact ⟨holds, nofun⟩
      | notNow => exact ⟨holds, fun _ => nofun⟩
    | widget =>
      cases choice with
      | allow => exact ⟨holds, nofun⟩
      | notNow =>
        change key ∈ (wa.toPrompts.again _ w).1.declined at holds
        rw [Prompts.again_declined] at holds
        rcases Finset.mem_erase.mp holds with ⟨differs, before⟩
        refine ⟨before, fun _ => ?_⟩
        simpa [Session.reviewed, found] using differs.symm

section
variable {hooks : HookSet} {next : Config} (store : Approvals Hash)

theorem settleWidgets_kept :
    let settled := (settleWidgets wa hooks store next).1
    settled.onScreen = wa.onScreen ∧ settled.declined = wa.declined ∧
      settled.granted = wa.granted := by
  unfold settleWidgets
  split <;> exact ⟨rfl, rfl, rfl⟩

theorem settleModelCommand_kept (mc : ModelCommandApproval Hash) :
    let settled := (settleModelCommand mc hooks store next).1
    settled.onScreen = mc.onScreen ∧ settled.declined = mc.declined ∧
      settled.granted = mc.granted := by
  unfold settleModelCommand
  split
  · exact ⟨rfl, rfl, rfl⟩
  · dsimp only
    split <;> exact ⟨rfl, rfl, rfl⟩

theorem settleQuickActions_kept (qa : QuickActionApprovals Hash) :
    let settled := settleQuickActions qa hooks store next
    settled.onScreen = qa.onScreen ∧ settled.declined = qa.declined ∧
      settled.granted = qa.granted := by
  unfold settleQuickActions
  split <;> exact ⟨rfl, rfl, rfl⟩

end

variable {hooks : HookSet} {store : Kind → Approvals Hash} {next : Config}

theorem answered_settle :
    (Withhold.settle wa hooks store next).1.answered key kind choice ↔
      wa.answered key kind choice := by
  cases kind with
  | widget =>
    cases choice with
    | allow =>
      change key ∈ (Withhold.settle wa hooks store next).1.granted ↔ _
      rw [settle_widgets.2.2.1, (settleWidgets_kept _).2.2]
      rfl
    | notNow =>
      change key ∈ (Withhold.settle wa hooks store next).1.toPrompts.declined ↔ _
      rw [settle_widgets.1, (settleWidgets_kept _).2.1]
      rfl
  | modelCommand =>
    rcases @settleModelCommand_kept _ _ _ hooks next (store .modelCommand) wa.modelCommand with
        ⟨-, declined, granted⟩
    cases choice <;> simp only [WidgetApprovals.answered, settle_modelCommand, declined, granted]
  | quickAction =>
    rcases @settleQuickActions_kept _ _ _ hooks next (store .quickAction) wa.quickActions with
        ⟨-, declined, granted⟩
    cases choice <;> simp only [WidgetApprovals.answered, settle_quickActions, declined, granted]

theorem shown_settle :
    (Withhold.settle wa hooks store next).1.shown kind = wa.shown kind := by
  cases kind with
  | widget =>
    change (Withhold.settle wa hooks store next).1.toPrompts.onScreen = wa.onScreen
    rw [settle_widgets.1]
    exact (settleWidgets_kept _).1
  | modelCommand =>
    unfold WidgetApprovals.shown
    dsimp only
    rw [settle_modelCommand, (settleModelCommand_kept _ _).1]
  | quickAction =>
    unfold WidgetApprovals.shown
    dsimp only
    rw [settle_quickActions, (settleQuickActions_kept _ _).1]

theorem answered_step {op : Op Hash}
    (holds : (session.step op).approvals.answered key kind choice) :
    (session.approvals.answered key kind choice ∧
        (choice = .notNow → session.reviewed kind op ≠ some key)) ∨
      op = .answer kind choice ∧ session.approvals.shown kind = some key := by
  have unreviewed : (∀ name, op ≠ .review name) → session.reviewed kind op ≠ some key := by
    intro other
    unfold Session.reviewed
    split
    · rename_i name
      exact absurd rfl (other name)
    · exact nofun
  cases op with
  | settle hooks store next =>
    exact .inl ⟨answered_settle.mp holds, fun _ => unreviewed (by simp)⟩
  | nextPending other => exact .inl ⟨answered_pull.mp holds, fun _ => unreviewed (by simp)⟩
  | promptClosed other =>
    exact .inl ⟨answered_promptClosed.mp holds, fun _ => unreviewed (by simp)⟩
  | review name => exact .inl (answered_review holds)
  | answer other choice' =>
    change (session.approvals.answer other choice').answered key kind choice at holds
    unfold WidgetApprovals.answer at holds
    split at holds
    · exact .inl ⟨holds, fun _ => unreviewed (by simp)⟩
    · rename_i shown isShown
      rcases answered_record isShown holds with before | ⟨rfl, rfl, rfl⟩
      · exact .inl ⟨before, fun _ => unreviewed (by simp)⟩
      · exact .inr ⟨rfl, isShown⟩

theorem run_snoc (live : Config) (past : List (Op Hash)) (op : Op Hash) :
    Session.run live (past ++ [op]) = (Session.run live past).step op := by
  rw [Session.run, List.foldl_append]
  rfl

theorem answered_run {live : Config} {past : List (Op Hash)}
    (holds : (Session.run live past).approvals.answered key kind choice) :
    Answered live past kind choice key := by
  induction past using List.reverseRecOn with
  | nil => cases kind <;> cases choice <;> simp [Session.run, Session.start,
      WidgetApprovals.empty, WidgetApprovals.answered, Prompts.empty] at holds
  | append_singleton past op induction =>
    rw [run_snoc] at holds
    rcases answered_step holds with ⟨earlier, -⟩ | ⟨rfl, isShown⟩
    · rcases induction earlier with ⟨before, after, rfl, isShown⟩
      exact ⟨before, after ++ [op], by simp, isShown⟩
    · exact ⟨past, [], rfl, isShown⟩

theorem declined_run {live : Config} {past : List (Op Hash)}
    (holds : (Session.run live past).approvals.answered key kind .notNow) :
    Declined live past kind key := by
  induction past using List.reverseRecOn with
  | nil => cases kind <;> simp [Session.run, Session.start,
      WidgetApprovals.empty, WidgetApprovals.answered, Prompts.empty] at holds
  | append_singleton past op induction =>
    rw [run_snoc] at holds
    rcases answered_step holds with ⟨earlier, unreviewed⟩ | ⟨rfl, isShown⟩
    · rcases induction earlier with ⟨before, after, rfl, isShown, unasked⟩
      refine ⟨before, after ++ [op], by simp, isShown, ?_⟩
      intro middle review rest split
      rcases snoc_eq_split.mp split with ⟨rfl, rfl, -⟩ | ⟨inner, -, rfl⟩
      · exact unreviewed rfl
      · exact unasked middle review inner rfl
    · exact ⟨past, [], rfl, isShown, by simp⟩

/-- What takes the prompt of a kind from the screen. -/
def Op.closes (op : Op Hash) (kind : Kind) : Prop :=
  op = .promptClosed kind ∨ ∃ choice, op = .answer kind choice

omit [DecidableEq Hash] [DeriveKey Hash] in
theorem shown_promptClosed (differ : other ≠ kind) :
    (wa.promptClosed other).shown kind = wa.shown kind := by
  cases other <;> cases kind <;> first | rfl | exact absurd rfl differ

omit [DeriveKey Hash] in
theorem shown_record {answered : Key Hash} :
    (wa.record answered other choice).shown kind = wa.shown kind := by
  cases other <;> cases choice <;> cases kind <;> rfl

omit [DeriveKey Hash] in
theorem shown_pull (isShown : wa.shown kind = some key) :
    (wa.pull other).1.shown kind = some key := by
  cases other with
  | widget =>
    cases kind with
    | widget => exact Prompts.next_onScreen isShown
    | _ => exact isShown
  | quickAction =>
    cases kind with
    | quickAction => exact Prompts.next_onScreen isShown
    | _ => exact isShown
  | modelCommand =>
    cases kind with
    | modelCommand =>
      rcases Option.map_eq_some_iff.mp isShown with ⟨h, onScreen, rfl⟩
      change (nextPendingModelCommand wa.modelCommand).1.onScreen.map _ = _
      rcases nextPendingModelCommand_cases wa.modelCommand with
        same | same | ⟨_, free, -, -⟩
      · rw [same]
        exact isShown
      · rw [same]
        exact isShown
      · rw [free] at onScreen
        cases onScreen
    | _ => exact isShown

omit [DeriveKey Hash] in
theorem shown_review {live : Config} {name : String} :
    (Withhold.review wa live name).1.shown kind = wa.shown kind := by
  unfold Withhold.review
  split
  · rfl
  · cases kind with
    | widget => exact Prompts.again_onScreen
    | _ => rfl

theorem shown_step {op : Op Hash} (stays : ¬op.closes kind)
    (isShown : session.approvals.shown kind = some key) :
    (session.step op).approvals.shown kind = some key := by
  cases op with
  | settle hooks store next => exact shown_settle.trans isShown
  | nextPending other => exact shown_pull isShown
  | promptClosed other =>
    have differ : other ≠ kind := fun same => stays (.inl (same ▸ rfl))
    exact (shown_promptClosed differ).trans isShown
  | review name => exact shown_review.trans isShown
  | answer other choice =>
    have differ : other ≠ kind := fun same => stays (.inr ⟨choice, same ▸ rfl⟩)
    change (session.approvals.answer other choice).shown kind = some key
    unfold WidgetApprovals.answer
    split
    · exact isShown
    · rw [shown_record, shown_promptClosed differ, isShown]

theorem shown_run {live : Config} {before middle : List (Op Hash)}
    (stays : ∀ op ∈ middle, ¬op.closes kind)
    (isShown : (Session.run live before).approvals.shown kind = some key) :
    (Session.run live (before ++ middle)).approvals.shown kind = some key := by
  induction middle using List.reverseRecOn with
  | nil => rwa [List.append_nil]
  | append_singleton middle op induction =>
    rw [← List.append_assoc, run_snoc]
    apply shown_step (stays op (by simp))
    exact induction fun op member => stays op (List.mem_append_left _ member)

omit [DeriveKey Hash] in
theorem pull_shows (pulled : (wa.pull kind).2 = some key) :
    wa.shown kind = none ∧ (wa.pull kind).1.shown kind = some key := by
  cases kind with
  | widget =>
    rcases Option.map_eq_some_iff.mp pulled with ⟨subject, next, rfl⟩
    rcases Prompts.next_shows next with ⟨free, shown, -, -⟩
    exact ⟨free, shown⟩
  | quickAction =>
    rcases Option.map_eq_some_iff.mp pulled with ⟨subject, next, rfl⟩
    rcases Prompts.next_shows next with ⟨free, shown, -, -⟩
    exact ⟨free, shown⟩
  | modelCommand =>
    rcases Option.map_eq_some_iff.mp pulled with ⟨p, next, rfl⟩
    change (nextPendingModelCommand wa.modelCommand).2 = some p at next
    rcases nextPendingModelCommand_cases wa.modelCommand with
      same | same | ⟨q, free, -, same⟩
    · rw [same] at next
      cases next
    · rw [same] at next
      cases next
    · rw [same] at next
      cases next
      refine ⟨by simp [WidgetApprovals.shown, free], ?_⟩
      change (nextPendingModelCommand wa.modelCommand).1.onScreen.map _ = _
      rw [same]
      rfl

end

end EclipseOS.Abyss.Withhold
