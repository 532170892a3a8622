import EclipseOS.Abyss.CommandHash
import EclipseOS.Cataclysm.Text
import EclipseOS.Foundation.Prompts

/-! # Withheld commands

Which command widgets, model command and quick actions of a configuration go live, and
which wait for the owner's answer. -/

namespace EclipseOS.Abyss.Withhold

open Foundation
open Cataclysm (isControl isWhitespace)

/-- Longest command text a prompt is handed, in characters. -/
def COMMAND_TEXT_MAX : Nat := 512

def MODEL_COMMAND_KEY : String := "oracle-eyes:model-command"

def ORACLE_EYES_MODEL_COMMAND : List String := ["claude"]

def BAR_WIDGET_CUSTOM_PREFIX : String := "custom:"

/-! ## What a prompt shows -/

/-- Characters that must not reach a trusted prompt. -/
def hidden (c : Char) : Bool :=
  let n := c.toNat
  isControl c ∨ (0x200B ≤ n ∧ n ≤ 0x200F) ∨ (0x202A ≤ n ∧ n ≤ 0x202E) ∨
    (0x2060 ≤ n ∧ n ≤ 0x2064) ∨ (0x2066 ≤ n ∧ n ≤ 0x2069) ∨ n ∈ [0xFEFF, 0x061C, 0x00AD]

def quoteMark : Char := Char.ofNat 39

/-- An argument as it is shown: quoted where a reader could not tell its ends. -/
def shownArgument (arg : String) : List Char :=
  let text := arg.toList.filter (!hidden ·)
  if text = [] ∨ text.any (fun c => isWhitespace c ∨ c = quoteMark ∨ c = '"') then
    quoteMark :: (text.flatMap fun c =>
      if c = quoteMark then [quoteMark, '\\', quoteMark, quoteMark] else [c]) ++ [quoteMark]
  else text

def join (argv : Argv) : List Char :=
  List.intercalate [' '] (argv.1.map fun arg => shownArgument arg.1)

/-- Prompt text, ending in an ellipsis where it was cut. -/
def clamp (text : List Char) : String :=
  if text.length ≤ COMMAND_TEXT_MAX then String.ofList text
  else String.ofList (text.take (COMMAND_TEXT_MAX - 1) ++ [Char.ofNat 0x2026])

/-- A command widget's display text: what it runs, then a line for each action. -/
def commandText (w : CustomWidget) : String :=
  match w.kind.runs with
  | none => ""
  | some (_, argv, _) =>
    let actions := [("on-click", w.onClick), ("on-scroll-up", w.onScrollUp),
      ("on-scroll-down", w.onScrollDown)].filterMap fun (label, action) =>
        action.map fun argv => (label ++ ": ").toList ++ join argv
    clamp (List.intercalate ['\n'] (join argv :: actions))

/-! ## State -/

inductive QuickActionTarget where
  | exec (argv : Argv)
  | app (entry : String)

structure QuickAction where
  id : String
  target : QuickActionTarget

def QuickAction.approvalName (action : QuickAction) : String := "action:" ++ action.id

structure Config where
  customWidgets : List CustomWidget
  catalog : List CustomWidget
  order : List String
  important : List String
  quickActions : List QuickAction
  modelCommand : Option Argv

structure HookSet where
  annotations : Bool
  taskbarWidgets : Bool

inductive Kind where
  | widget
  | modelCommand
  | quickAction
  deriving DecidableEq

inductive PendingKind where
  | altered
  | new
  deriving DecidableEq

variable {Hash : Type}

abbrev Approvals (Hash : Type) := List (String × Hash)

def Approvals.get (approvals : Approvals Hash) (name : String) : Option Hash :=
  (approvals.find? (·.1 = name)).map (·.2)

structure PendingWidget (Hash : Type) where
  name : String
  kind : PendingKind
  commandText : String
  hash : Hash

def PendingWidget.key (w : PendingWidget Hash) : String × Hash := (w.name, w.hash)

structure PendingModelCommand (Hash : Type) where
  commandText : String
  hash : Hash

structure PendingQuickAction (Hash : Type) where
  id : String
  commandText : String
  hash : Hash

def PendingQuickAction.key (action : PendingQuickAction Hash) : String × Hash :=
  (action.id, action.hash)

structure ModelCommandApproval (Hash : Type) where
  withheld : Option (PendingModelCommand Hash)
  queued : Bool
  onScreen : Option Hash
  declined : Finset Hash
  granted : Finset Hash

structure QuickActionApprovals (Hash : Type)
    extends Prompts (String × Hash) (PendingQuickAction Hash) where
  withheld : List (PendingQuickAction Hash)
  granted : Finset (String × Hash)

/-- The session's approvals: the prompts of the command widgets, and beside them those of
the model command and of the quick actions. -/
structure WidgetApprovals (Hash : Type)
    extends Prompts (String × Hash) (PendingWidget Hash) where
  withheld : List (Nat × PendingWidget Hash)
  granted : Finset (String × Hash)
  modelCommand : ModelCommandApproval Hash
  quickActions : QuickActionApprovals Hash

def WidgetApprovals.empty : WidgetApprovals Hash where
  toPrompts := Prompts.empty
  withheld := []
  granted := ∅
  modelCommand := ⟨none, false, none, ∅, ∅⟩
  quickActions := { Prompts.empty with withheld := [], granted := ∅ }

/-! ## Settling a configuration -/

variable [DecidableEq Hash] [DeriveKey Hash]

def isDefaultModelCommand (argv : Argv) : Bool :=
  argv.1.map (·.1) = ORACLE_EYES_MODEL_COMMAND

/-- The model command goes live only as the default, as recorded or as approved. -/
def settleModelCommand (mc : ModelCommandApproval Hash) (hooks : HookSet)
    (store : Approvals Hash) (next : Config) : ModelCommandApproval Hash × Config :=
  match next.modelCommand with
  | none => ({ mc with withheld := none, queued := false }, next)
  | some argv =>
    let hash := modelCommandHash argv
    if isDefaultModelCommand argv ∨ hash ∈ mc.granted ∨
        store.get MODEL_COMMAND_KEY = some hash then
      ({ mc with withheld := none, queued := false }, next)
    else
      ({ mc with
          withheld := some ⟨clamp (join argv), hash⟩
          queued := hooks.annotations ∧ mc.onScreen ≠ some hash ∧ hash ∉ mc.declined },
        { next with modelCommand := none })

def premade (catalog : List CustomWidget) (w : CustomWidget) : Option CustomWidget :=
  catalog.find? (·.name = w.name)

def approved (granted : Finset (String × Hash)) (store : Approvals Hash)
    (catalog : List CustomWidget) (w : CustomWidget) (h : Hash) : Bool :=
  (premade catalog w).bind hash = some h ∨ store.get w.name = some h ∨ (w.name, h) ∈ granted

/-- What a prompt needs of a command widget that may not run. -/
def withheldAs (granted : Finset (String × Hash)) (store : Approvals Hash)
    (catalog : List CustomWidget) (w : CustomWidget) : Option (PendingWidget Hash) :=
  (hash w).bind fun h =>
    if approved granted store catalog w h then none
    else some ⟨w.name, if (premade catalog w).isSome then .altered else .new, commandText w, h⟩

def dropUnhookedWidgets (next : Config) : Config :=
  if next.customWidgets = [] then next
  else
    { next with
      customWidgets := []
      order := next.order.filter (!BAR_WIDGET_CUSTOM_PREFIX.isPrefixOf ·)
      important := next.important.filter (!BAR_WIDGET_CUSTOM_PREFIX.isPrefixOf ·) }

/-- Without its hook there is no withholding and no prompt. -/
def settleWidgets (wa : WidgetApprovals Hash) (hooks : HookSet) (store : Approvals Hash)
    (next : Config) : WidgetApprovals Hash × Config :=
  if ¬hooks.taskbarWidgets then
    ({ wa with withheld := [], queue := [] }, dropUnhookedWidgets next)
  else
    let pending := withheldAs wa.granted store next.catalog
    let withheld := next.customWidgets.zipIdx.filterMap fun (w, i) => (pending w).map ((i, ·))
    ({ wa with
        toPrompts := wa.toPrompts.refill PendingWidget.key (withheld.map (·.2))
        withheld := withheld },
      { next with customWidgets := next.customWidgets.filter fun w => (pending w).isNone })

/-- What a prompt needs of a quick action that may not run. -/
def withheldAction (granted : Finset (String × Hash)) (store : Approvals Hash)
    (action : QuickAction) : Option (PendingQuickAction Hash) :=
  match action.target with
  | .app _ => none
  | .exec argv =>
    let hash := quickActionHash argv
    if store.get action.approvalName = some hash ∨ (action.id, hash) ∈ granted then none
    else some ⟨action.id, clamp (join argv), hash⟩

def isExec (action : QuickAction) : Bool :=
  match action.target with
  | .exec _ => true
  | .app _ => false

/-- Quick actions stay in the configuration: each press asks the store. -/
def settleQuickActions (qa : QuickActionApprovals Hash) (hooks : HookSet)
    (store : Approvals Hash) (next : Config) : QuickActionApprovals Hash :=
  if ¬hooks.taskbarWidgets ∨ ¬next.quickActions.any isExec then
    { qa with withheld := [], queue := [] }
  else
    let withheld := next.quickActions.filterMap (withheldAction qa.granted store)
    { qa with
      toPrompts := qa.toPrompts.refill PendingQuickAction.key withheld, withheld := withheld }

/-- Which commands of a configuration go live. The store is read for each kind, and may be
written in between. -/
def settle (wa : WidgetApprovals Hash) (hooks : HookSet) (store : Kind → Approvals Hash)
    (next : Config) : WidgetApprovals Hash × Config :=
  let (modelCommand, next) :=
    settleModelCommand wa.modelCommand hooks (store .modelCommand) next
  let (wa, next) :=
    settleWidgets { wa with modelCommand := modelCommand } hooks (store .widget) next
  ({ wa with
      quickActions := settleQuickActions wa.quickActions hooks (store .quickAction) next },
    next)

/-! ## Prompts and answers -/

def nextPending (wa : WidgetApprovals Hash) :
    WidgetApprovals Hash × Option (PendingWidget Hash) :=
  let (prompts, shown) := wa.toPrompts.next PendingWidget.key
  ({ wa with toPrompts := prompts }, shown)

def nextPendingQuickAction (qa : QuickActionApprovals Hash) :
    QuickActionApprovals Hash × Option (PendingQuickAction Hash) :=
  let (prompts, shown) := qa.toPrompts.next PendingQuickAction.key
  ({ qa with toPrompts := prompts }, shown)

/-- The model command's prompt, while none of them is on screen. -/
def nextPendingModelCommand (mc : ModelCommandApproval Hash) :
    ModelCommandApproval Hash × Option (PendingModelCommand Hash) :=
  if mc.onScreen.isSome ∨ ¬mc.queued then (mc, none)
  else
    let mc := { mc with queued := false }
    match mc.withheld with
    | none => (mc, none)
    | some p =>
      if p.hash ∈ mc.declined then (mc, none)
      else ({ mc with onScreen := some p.hash }, some p)

inductive ReviewError where
  | unknown
  | notPending

/-- A withheld widget is asked about again, at another's wish. -/
def review (wa : WidgetApprovals Hash) (live : Config) (name : String) :
    WidgetApprovals Hash × Except ReviewError Bool :=
  match wa.withheld.find? (·.2.name = name) with
  | none =>
    (wa, .error (if live.customWidgets.any (·.name = name) then .notPending else .unknown))
  | some (_, w) =>
    let (prompts, asked) := wa.toPrompts.again PendingWidget.key w
    ({ wa with toPrompts := prompts }, .ok asked)

end EclipseOS.Abyss.Withhold
