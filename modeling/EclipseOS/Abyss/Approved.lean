import EclipseOS.Abyss.WithholdRuns

/-! # Approved commands

What goes live after a settled configuration is approved, and what does not is withheld
and asked about once. -/

namespace EclipseOS.Abyss.Withhold

open Foundation

variable {Hash : Type} [DecidableEq Hash] [DeriveKey Hash]

section
variable {wa : WidgetApprovals Hash} {hooks : HookSet} {next : Config}

/-- A key is shown, declined, or asked about. -/
def Waits {α : Type} (id : α → Key Hash) (prompts : Prompts (Key Hash) α) (key : Key Hash) :
    Prop :=
  prompts.onScreen = some key ∨ key ∈ prompts.declined ∨ key ∈ prompts.queue.map id

omit [DeriveKey Hash] in
theorem waits_refill {α : Type} (id : α → Key Hash) (prompts : Prompts (Key Hash) α)
    {withheld : List α} {subject : α} (member : subject ∈ withheld) :
    Waits id (prompts.refill id withheld) (id subject) :=
  @Prompts.asked_refill _ _ _ id prompts _ _ member

theorem withheldAs_eq {store : Approvals Hash} {granted : Finset (Key Hash)}
    {catalog : List CustomWidget} {w : CustomWidget} {h : Hash} (hashed : hash w = some h) :
    if approved granted store catalog w h then withheldAs granted store catalog w = none
    else ∃ p, withheldAs granted store catalog w = some p ∧ p.key = (w.name, h) := by
  unfold withheldAs
  rw [hashed, Option.bind_some]
  split
  · rfl
  · exact ⟨_, rfl, rfl⟩

theorem premade_some {catalog : List CustomWidget} {w block : CustomWidget}
    (found : premade catalog w = some block) : block ∈ catalog ∧ block.name = w.name := by
  have named := List.find?_some found
  exact ⟨List.mem_of_find?_eq_some found, by simpa using named⟩

theorem settleWidgets_approved (store : Approvals Hash) {w : CustomWidget} {h : Hash}
    (live : w ∈ (settleWidgets wa hooks store next).2.customWidgets) (hashed : hash w = some h) :
    approved wa.granted store next.catalog w h = true := by
  unfold settleWidgets at live
  split at live
  · unfold dropUnhookedWidgets at live
    split at live
    · rename_i none
      rw [none] at live
      cases live
    · cases live
  · have kept := (List.mem_filter.mp live).2
    have decided := @withheldAs_eq _ _ _ store wa.granted next.catalog _ _ hashed
    split at decided
    · assumption
    · rcases decided with ⟨p, pending, -⟩
      rw [pending] at kept
      cases kept

theorem settleWidgets_waits (store : Approvals Hash) (hooked : hooks.taskbarWidgets = true)
    {w : CustomWidget} (member : w ∈ next.customWidgets) {h : Hash} (hashed : hash w = some h)
    (dropped : w ∉ (settleWidgets wa hooks store next).2.customWidgets) :
    let settled := (settleWidgets wa hooks store next).1
    (w.name, h) ∈ settled.withheld.map (·.2.key) ∧
      Waits PendingWidget.key settled.toPrompts (w.name, h) := by
  unfold settleWidgets at dropped ⊢
  rw [if_neg (by simp [hooked])] at dropped ⊢
  have decided := @withheldAs_eq _ _ _ store wa.granted next.catalog _ _ hashed
  split at decided
  · exact absurd (List.mem_filter.mpr ⟨member, by simp [decided]⟩) dropped
  · rcases decided with ⟨p, pending, key⟩
    rcases List.getElem?_of_mem member with ⟨i, indexed⟩
    have held : (i, p) ∈ next.customWidgets.zipIdx.filterMap fun entry =>
        (withheldAs wa.granted store next.catalog entry.1).map ((entry.2, ·)) :=
      List.mem_filterMap.mpr
        ⟨(w, i), List.mk_mem_zipIdx_iff_getElem?.mpr indexed, by simp [pending]⟩
    rw [← key]
    exact ⟨List.mem_map_of_mem held, waits_refill _ _ (List.mem_map_of_mem held)⟩

theorem settleModelCommand_cases (mc : ModelCommandApproval Hash) (store : Approvals Hash)
    {argv : Argv} (found : next.modelCommand = some argv) :
    let settled := settleModelCommand mc hooks store next
    let hash := modelCommandHash argv
    (settled.2.modelCommand = some argv ∧
        (isDefaultModelCommand argv = true ∨ hash ∈ mc.granted ∨
          store.get MODEL_COMMAND_KEY = some hash)) ∨
      settled.2.modelCommand = none ∧
        settled.1.withheld = some ⟨clamp (join argv), hash⟩ ∧
        (hooks.annotations = true →
          settled.1.queued = true ∨ settled.1.onScreen = some hash ∨
            hash ∈ settled.1.declined) := by
  unfold settleModelCommand
  rw [found]
  dsimp only
  split
  · rename_i passes
    exact .inl ⟨found, passes⟩
  · refine .inr ⟨rfl, rfl, fun hooked => ?_⟩
    by_cases shown : mc.onScreen = some (modelCommandHash argv)
    · exact .inr (.inl shown)
    · by_cases declined : modelCommandHash argv ∈ mc.declined
      · exact .inr (.inr declined)
      · exact .inl (by simp [hooked, shown, declined])

theorem settleQuickActions_waits (qa : QuickActionApprovals Hash) (store : Approvals Hash)
    (hooked : hooks.taskbarWidgets = true) {action : QuickAction}
    (member : action ∈ next.quickActions) {argv : Argv} (runs : action.target = .exec argv) :
    let settled := settleQuickActions qa hooks store next
    let hash := quickActionHash argv
    store.get action.approvalName = some hash ∨ (action.id, hash) ∈ qa.granted ∨
      (action.id, hash) ∈ settled.withheld.map PendingQuickAction.key ∧
        Waits PendingQuickAction.key settled.toPrompts (action.id, hash) := by
  dsimp only
  by_cases recorded : store.get action.approvalName = some (quickActionHash argv)
  · exact .inl recorded
  by_cases granted : (action.id, quickActionHash argv) ∈ qa.granted
  · exact .inr (.inl granted)
  have someExec : next.quickActions.any isExec = true :=
    List.any_eq_true.mpr ⟨action, member, by simp [isExec, runs]⟩
  have held : ⟨action.id, clamp (join argv), quickActionHash argv⟩ ∈
      next.quickActions.filterMap (withheldAction qa.granted store) :=
    List.mem_filterMap.mpr ⟨action, member, by simp [withheldAction, runs, recorded, granted]⟩
  unfold settleQuickActions
  rw [if_neg (by simp [hooked, someExec])]
  exact .inr (.inr ⟨List.mem_map_of_mem held, waits_refill PendingQuickAction.key _ held⟩)

end

/-- It is withheld, and asked about once, on screen, or declined. -/
def Asked (live : Config) (past : List (Op Hash)) (kind : Kind) (key : Key Hash) : Prop :=
  let wa := (Session.run live past).approvals
  key ∈ wa.withheldKeys kind ∧
    ((wa.waiting kind).count key = 1 ∨ wa.shown kind = some key ∨ Declined live past kind key)

/-- What a configuration settled after `past` promises. -/
structure Settled (live : Config) (past : List (Op Hash)) (hooks : HookSet)
    (store : Kind → Approvals Hash) (next : Config) : Prop where
  /-- A command widget that goes live is premade, recorded or allowed. -/
  liveWidget : ∀ w ∈ (Session.run live (past ++ [.settle hooks store next])).live.customWidgets,
    ∀ h, hash w = some h →
      (∃ block ∈ next.catalog, block.name = w.name ∧ hash block = some h) ∨
        (store .widget).get w.name = some h ∨ Answered live past .widget .allow (w.name, h)
  /-- A model command that goes live is the default, recorded or allowed. -/
  liveModelCommand : ∀ argv,
    (Session.run live (past ++ [.settle hooks store next])).live.modelCommand = some argv →
      isDefaultModelCommand argv = true ∨
        (store .modelCommand).get MODEL_COMMAND_KEY = some (modelCommandHash argv) ∨
        Answered live past .modelCommand .allow (MODEL_COMMAND_KEY, modelCommandHash argv)
  otherWidget : hooks.taskbarWidgets = true → ∀ w ∈ next.customWidgets,
    w ∉ (Session.run live (past ++ [.settle hooks store next])).live.customWidgets →
    ∀ h, hash w = some h → Asked live (past ++ [.settle hooks store next]) .widget (w.name, h)
  otherModelCommand : hooks.annotations = true → ∀ argv, next.modelCommand = some argv →
    (Session.run live (past ++ [.settle hooks store next])).live.modelCommand ≠ some argv →
    Asked live (past ++ [.settle hooks store next]) .modelCommand
      (MODEL_COMMAND_KEY, modelCommandHash argv)
  /-- A quick action stays, and each press asks for its approval. -/
  quickAction : hooks.taskbarWidgets = true → ∀ action ∈ next.quickActions, ∀ argv,
    action.target = .exec argv →
      (store .quickAction).get action.approvalName = some (quickActionHash argv) ∨
        Answered live past .quickAction .allow (action.id, quickActionHash argv) ∨
        Asked live (past ++ [.settle hooks store next]) .quickAction
          (action.id, quickActionHash argv)

/-- What holds of the prompts at every moment. -/
structure Orderly (live : Config) (past : List (Op Hash)) : Prop where
  /-- No key waits twice. -/
  nodup : ∀ kind, ((Session.run live past).approvals.waiting kind).Nodup
  /-- None that is on screen waits. -/
  apart : ∀ kind key, (Session.run live past).approvals.shown kind = some key →
    key ∉ (Session.run live past).approvals.waiting kind
  /-- Between two prompts of a kind, the first is closed. -/
  alone : ∀ before middle kind, past = before ++ .nextPending kind :: middle →
    ((Session.run live before).approvals.pull kind).2 ≠ none →
    ((Session.run live past).approvals.pull kind).2 ≠ none → ∃ op ∈ middle, op.closes kind

structure SameCommand (Hash : Type) [DeriveKey Hash] : Prop where
  widget : ∀ w w' (h : Hash), hash w = some h → hash w' = some h →
    w.kind = w'.kind ∧ w.onClick = w'.onClick ∧ w.onScrollUp = w'.onScrollUp ∧
      w.onScrollDown = w'.onScrollDown
  modelCommand : ∀ argv argv', (modelCommandHash argv : Hash) = modelCommandHash argv' →
    argv = argv'
  quickAction : ∀ argv argv', (quickActionHash argv : Hash) = quickActionHash argv' →
    argv = argv'

omit [DecidableEq Hash] in
theorem sameCommand (free : CollisionFree Hash) : SameCommand Hash where
  widget _ _ _ := hash_inj free
  modelCommand _ _ := modelCommandHash_inj free
  quickAction _ _ := quickActionHash_inj free

theorem orderly (live : Config) (past : List (Op Hash)) : Orderly live past where
  nodup kind := ((asks_run live past).apart kind).1
  apart kind := ((asks_run live past).apart kind).2
  alone := by
    rintro before middle kind rfl first second
    rcases Option.ne_none_iff_exists'.mp first with ⟨key, pulled⟩
    rcases Option.ne_none_iff_exists'.mp second with ⟨other, again⟩
    by_contra closed
    push Not at closed
    have isShown : (Session.run live (before ++ [.nextPending kind])).approvals.shown kind =
        some key := by
      rw [run_snoc]
      exact (pull_shows pulled).2
    have stays := shown_run closed isShown
    rw [List.append_assoc, List.singleton_append, (pull_shows again).1] at stays
    cases stays

theorem asked {live : Config} {past : List (Op Hash)} {kind : Kind} {key : Key Hash}
    (held : key ∈ (Session.run live past).approvals.withheldKeys kind)
    (waits : (Session.run live past).approvals.shown kind = some key ∨
      (Session.run live past).approvals.answered key kind .notNow ∨
      key ∈ (Session.run live past).approvals.waiting kind) : Asked live past kind key := by
  refine ⟨held, ?_⟩
  rcases waits with shown | declined | queued
  · exact .inr (.inl shown)
  · exact .inr (.inr (declined_run declined))
  · exact .inl (List.count_eq_one_of_mem ((asks_run live past).apart kind).1 queued)

theorem settled (live : Config) (past : List (Op Hash)) (hooks : HookSet)
    (store : Kind → Approvals Hash) (next : Config) : Settled live past hooks store next where
  liveWidget w member h hashed := by
    rw [run_snoc] at member
    change w ∈ (settle _ hooks store next).2.customWidgets at member
    rw [settle_widgets.2.2.2] at member
    have passes := of_decide_eq_true (settleWidgets_approved _ member hashed)
    rcases passes with block | recorded | granted
    · rcases Option.bind_eq_some_iff.mp block with ⟨premade, found, same⟩
      rcases premade_some found with ⟨member, name⟩
      exact .inl ⟨premade, member, name, same⟩
    · exact .inr (.inl recorded)
    · exact .inr (.inr (answered_run granted))
  liveModelCommand argv found := by
    rw [run_snoc] at found
    change (settle _ hooks store next).2.modelCommand = some argv at found
    rw [settle_live_modelCommand] at found
    have same : next.modelCommand = some argv := by
      rcases settleModelCommand_next (Session.run live past).approvals.modelCommand hooks
        (store .modelCommand) next with unchanged | cleared
      · rwa [unchanged] at found
      · rw [cleared] at found
        cases found
    rcases @settleModelCommand_cases _ _ _ hooks _ (Session.run live past).approvals.modelCommand
        (store .modelCommand) _ same with ⟨-, passes⟩ | ⟨cleared, -⟩
    · rcases passes with default | granted | recorded
      · exact .inl default
      · exact .inr (.inr (answered_run ⟨rfl, granted⟩))
      · exact .inr (.inl recorded)
    · rw [found] at cleared
      cases cleared
  otherWidget hooked w member dropped h hashed := by
    rw [run_snoc] at dropped
    change w ∉ (settle _ hooks store next).2.customWidgets at dropped
    rw [settle_widgets.2.2.2] at dropped
    rcases settleWidgets_waits _ hooked member hashed dropped with ⟨held, waits⟩
    rw [← settle_widgets.2.1] at held
    rw [← settle_widgets.1] at waits
    apply asked
    · rw [run_snoc]
      exact held
    · rw [run_snoc]
      exact waits
  otherModelCommand hooked argv found dropped := by
    rw [run_snoc] at dropped
    change (settle _ hooks store next).2.modelCommand ≠ some argv at dropped
    rw [settle_live_modelCommand] at dropped
    rcases @settleModelCommand_cases _ _ _ hooks _ (Session.run live past).approvals.modelCommand
        (store .modelCommand) _ found with ⟨live, -⟩ | ⟨-, held, waits⟩
    · exact absurd live dropped
    · rw [← settle_modelCommand] at held waits
      apply asked
      · rw [run_snoc]
        change _ ∈ ((settle _ hooks store next).1.modelCommand.withheld.toList.map _)
        rw [held]
        exact List.mem_singleton_self _
      · rw [run_snoc]
        rcases waits hooked with queued | shown | declined
        · refine .inr (.inr ?_)
          change _ ∈ ite ((settle _ hooks store next).1.modelCommand.queued = true) _ _
          rw [if_pos queued]
          change _ ∈ ((settle _ hooks store next).1.modelCommand.withheld.toList.map _)
          rw [held]
          exact List.mem_singleton_self _
        · refine .inl ?_
          change (settle _ hooks store next).1.modelCommand.onScreen.map _ = _
          rw [shown]
          rfl
        · exact .inr (.inl ⟨rfl, declined⟩)
  quickAction hooked action member argv runs := by
    rcases settleQuickActions_waits (Session.run live past).approvals.quickActions
      (store .quickAction) hooked member runs with recorded | granted | ⟨held, waits⟩
    · exact .inl recorded
    · exact .inr (.inl (answered_run granted))
    · rw [← settle_quickActions] at held waits
      refine .inr (.inr (asked ?_ ?_))
      · rw [run_snoc]
        exact held
      · rw [run_snoc]
        exact waits

/-- Nothing goes live that is not approved, and no prompt is lost or stacked. -/
theorem approves (free : CollisionFree Hash) (live : Config) (past : List (Op Hash)) :
    Orderly live past ∧ (∀ hooks store next, Settled live past hooks store next) ∧
      SameCommand Hash :=
  ⟨orderly live past, settled live past, sameCommand free⟩

/-- A hash that keeps the whole message has no collisions. -/
instance transcript : DeriveKey (String × Bytes) := ⟨Prod.mk⟩

theorem transcript_free : CollisionFree (String × Bytes) :=
  fun _ _ _ same => congrArg Prod.snd same

def loadWidget : CustomWidget :=
  ⟨"load", .exec ⟨[⟨"uptime", by decide⟩], by decide⟩ 1000, none, none, none, none⟩

def withLoad : Config := ⟨[loadWidget], [], [], [], [], none⟩

/-- A new widget is settled, asked about and allowed. -/
def allowLoad : List (Op (String × Bytes)) :=
  [.settle ⟨true, true⟩ (fun _ => []) withLoad, .nextPending .widget, .answer .widget .allow]

theorem approves_allowed :
    Orderly withLoad allowLoad ∧
      (∀ hooks store next, Settled withLoad allowLoad hooks store next) ∧
      SameCommand (String × Bytes) :=
  approves transcript_free withLoad allowLoad

example : (Session.run withLoad (allowLoad ++ [.settle ⟨true, true⟩ (fun _ => []) withLoad])
    ).live.customWidgets = [loadWidget] := by decide

end EclipseOS.Abyss.Withhold
