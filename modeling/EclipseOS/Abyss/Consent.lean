import EclipseOS.Abyss.Enforce

/-! # The consent prompt

What the prompt for a parked request says, and what an answer to it grants. -/

namespace EclipseOS.Abyss

open PolicyEval

/-! ## Text -/

/-- Hard character cap, applied after sanitising. -/
def maxChars : Nat := 480

/-- What is drawn of one character, if it is not dropped. -/
def drawn (char : Char) : Option Char :=
  if char = '\n' then some '\n'
  else if char.toNat < 0x20 ∨ char.toNat = 0x7f then none
  else if char.toNat < 0x80 then some char
  else some '?'

/-- The printable ASCII the trusted UI can draw. -/
def sanitize (input : String) : List Char := (input.toList.filterMap drawn).take maxChars

def sanitizeLine (input : String) : List Char :=
  (sanitize input).map fun char => if char = '\n' then ' ' else char

/-! ## Modals -/

/-- What pressing a button means, as far as the prompt itself is concerned. -/
inductive Role where
  | safe
  | grant
  | other
  deriving DecidableEq

structure Button where
  label : String
  role : Role
  deriving DecidableEq

/-- A modal prompt, without the block of the agent's own words. -/
structure Modal where
  token : UInt64
  heading : String
  warning : Option String
  body : String
  /-- Labelled single lines. -/
  facts : List (String × String)
  wellLabel : String
  buttons : List Button
  /-- Drawn with the irreversible accent. -/
  accent : Bool
  deriving DecidableEq

inductive Invalid where
  | safe
  | buttons
  | tooLong
  deriving DecidableEq

def cols : Nat := 60

def maxButtons : Nat := 5

def maxFacts : Nat := 32

def maxLabel : Nat := 16

def factRoom : Nat := cols - maxLabel - 1

def cutLabel (label : String) : String := String.ofList (label.toList.take maxLabel)

/-- Pieces of a size, the last one what is left. -/
def chunks (size : Nat) (text : List Char) : List (List Char) :=
  if text = [] ∨ size = 0 then [] else text.take size :: chunks size (text.drop size)
  termination_by text.length
  decreasing_by
    rename_i some
    have notEmpty := List.length_pos_iff.mpr (not_or.mp some).1
    have sized := Nat.pos_of_ne_zero (not_or.mp some).2
    rw [List.length_drop]
    omega

theorem length_chunks_le_iff {size : Nat} (sized : 0 < size) {most : Nat} {text : List Char} :
    (chunks size text).length ≤ most ↔ text.length ≤ most * size := by
  induction most generalizing text with
  | zero =>
    rw [Nat.zero_mul, Nat.le_zero, Nat.le_zero, List.length_eq_zero_iff, List.length_eq_zero_iff,
      chunks]
    simp [Nat.ne_of_gt sized]
  | succ most induction =>
    rw [chunks, Nat.succ_mul]
    split
    · rename_i none
      rw [none.resolve_right (Nat.ne_of_gt sized)]
      simp
    · rw [List.length_cons, Nat.succ_le_succ_iff, induction, List.length_drop]
      omega

namespace Modal

def new (token : UInt64) (heading : String) (warning : Option String) (body wellLabel : String)
    (buttons : List Button) : Except Invalid Modal :=
  if buttons = [] ∨ maxButtons < buttons.length then
    .error .buttons
  else if (buttons.filter (·.role = .safe)).length ≠ 1 then
    .error .safe
  else
    .ok ⟨token, heading, warning, body, [], wellLabel, buttons, false⟩

/-- A value cut to the space after its label; a cut ends in `...`. -/
def cutValue (value : String) : String :=
  let line := sanitizeLine value
  let line := if factRoom < line.length then line.take (factRoom - 3) ++ "...".toList else line
  if line = [] then "(none)" else String.ofList line

/-- Facts past the most there may be are dropped. -/
def withFacts (modal : Modal) (facts : List (String × String)) : Modal :=
  { modal with
    facts := modal.facts ++ (facts.take (maxFacts - modal.facts.length)).map fun (label, value) =>
      (cutLabel label, cutValue value) }

def wholeLines (value : String) : List String :=
  match chunks factRoom (sanitizeLine value) with
  | [] => ["(none)"]
  | lines => lines.map String.ofList

/-- A fact that is shown whole or not at all. -/
def withWholeFact (modal : Modal) (label value : String) (maxLines : Nat) : Except Invalid Modal :=
  let lines := wholeLines value
  if maxChars ≤ (sanitizeLine value).length then
    .error .tooLong
  else if maxLines < lines.length ∨ maxFacts < modal.facts.length + lines.length then
    .error .tooLong
  else
    .ok { modal with
      facts := modal.facts ++ (cutLabel label :: List.replicate (lines.length - 1) "").zip lines }

def irreversible (modal : Modal) : Modal := { modal with accent := true }

end Modal

/-! ## The prompt -/

inductive Reversal where
  | none
  | trash
  | otherParty
  deriving DecidableEq

def Reversal.wording : Reversal → String
  | none => "Irreversible. This cannot be undone from here."
  | trash => "Irreversible. This goes to the trash."
  | otherParty => "Irreversible. Undoing this needs the other party."

/-- What the prompt shows about one parked request. -/
structure Ask where
  principal : String
  action : String
  app : String
  window : String
  task : String
  category : Option (String × Reversal)
  untrustedSource : Option String
  /-- The exact scopes that "for this task" and "unattended 1h" would grant. -/
  taskScope : String
  unattendedScope : String
  deriving DecidableEq

inductive ConsentAnswer where
  | allowOnce
  | allowForTask
  | allowUnattended
  | deny
  | denyAndPause
  deriving DecidableEq

def consentButtons : List (ConsentAnswer × Button) :=
  [(.allowOnce, ⟨"Allow once", .grant⟩), (.allowForTask, ⟨"Allow for this task", .grant⟩),
    (.allowUnattended, ⟨"Allow unattended 1h", .grant⟩), (.deny, ⟨"Deny", .safe⟩),
    (.denyAndPause, ⟨"Deny & pause agent", .other⟩)]

def answerOf (button : Nat) : ConsentAnswer := (consentButtons[button]?).elim .deny Prod.fst

def heading : String := "An agent is asking to act"

def untrustedWarning : String := "Part of this action's input came from an untrusted source."

def well : String := "Agent's note (untrusted):"

namespace Ask

/-- The labelled lines, before the two scopes. -/
def facts (ask : Ask) : List (String × String) :=
  [("Agent", ask.principal), ("Wants to", ask.action), ("In", ask.app), ("Window", ask.window),
    ("Task", ask.task),
    ("Category", (ask.category.map fun category => category.1 ++ " (irreversible)").getD "routine"),
    ("Untrusted input", ask.untrustedSource.getD "none")]

/-- The scopes are shown whole or not at all. -/
def modal (token : UInt64) (ask : Ask) : Option Modal :=
  let warning := match ask.untrustedSource, ask.category with
    | some _, _ => some untrustedWarning
    | none, some (_, reversal) => some reversal.wording
    | none, none => none
  let body := match ask.untrustedSource, ask.category with
    | some _, some (_, reversal) => reversal.wording
    | _, _ => ""
  let built := do
    let modal ← Modal.new token heading warning body well (consentButtons.map Prod.snd)
    let modal ← (modal.withFacts ask.facts).withWholeFact "For this task" ask.taskScope 3
    modal.withWholeFact "Unattended 1h" ask.unattendedScope 3
  match built with
  | .error _ => none
  | .ok modal => some (if ask.category.isSome then modal.irreversible else modal)

def verdict (ask : Ask) (answer : ConsentAnswer) (timedOut : Bool) : Verdict :=
  if timedOut then
    .timedOut
  else
    match answer with
    | .allowOnce => .proceed none
    | .allowForTask => .proceed (some ⟨ask.taskScope, false⟩)
    | .allowUnattended => .proceed (some ⟨ask.unattendedScope, true⟩)
    | .deny => .denied
    | .denyAndPause => .deniedAndPause

/-- A prompt that is put up and answered. One that cannot be drawn is denied. -/
def consent (token : UInt64) (ask : Ask) (answer : ConsentAnswer) (timedOut : Bool) : Verdict :=
  match ask.modal token with
  | none => ask.verdict .deny false
  | some _ => ask.verdict answer timedOut

end Ask

/-! ## What is asked for a request -/

def Act.action : Act → String
  | focus _ => "Focus this window"
  | key .. | keysym .. => "Press a key"
  | text _ value => s!"Type {value.length} characters"
  | click .. => "Click"
  | button .. => "Press a pointer button"
  | axis .. => "Scroll"
  | pointerAbs .. | pointerRel .. => "Move the pointer"
  | touchDown .. | touchUp _ | touchMotion .. => "Touch"

/-- What the consent prompt shows for a request on a window. -/
def ask (task : Option String) (principal : String) (req : Request) (window : Window) : Ask where
  principal := principal
  action := req.act.action
  app := window.appId
  window := window.title
  task := task.getD "(no task)"
  category := none
  untrustedSource := none
  -- the narrowest scopes that cover this request
  taskScope := s!"{req.act.capability} handle:{window.handle}"
  unattendedScope :=
    req.act.capability ++ " app_id:" ++ (if window.appId = "" then "-" else window.appId)

end EclipseOS.Abyss
