import EclipseOS.Foundation.Json
import Mathlib.Data.Finset.Dedup

/-! # Turns

What a model process writes while it answers a turn, and the turn the router makes of
it: the calls the process waits on, or the end of its answer. -/

namespace EclipseOS.Inferenced

open Foundation

structure Failure where
  kind : String
  message : String
  deriving DecidableEq

def MAX_ERR_TEXT : Nat := 500

/-- The name our server gives each tool it offers. -/
def TOOL_PREFIX : String := "mcp__eclipse__"

inductive Event where
  | line (value : Json)
  | exit
  /-- Nothing came before the turn's time, or the wait for further calls, was over. -/
  | timeout

inductive Turn where
  | tools (content : List Json) (ids : Finset String)
  | done (content : List Json) (stopReason : String) (inputTokens outputTokens : UInt64)
      (costUsd : Option Number)

def Turn.content : Turn → List Json
  | tools content _ => content
  | done content .. => content

def Turn.ids : Turn → Finset String
  | tools _ ids => ids
  | done .. => ∅

def strField (value : Json) (key : String) : Option String := (value.get key).bind Json.asStr

def isTrue (value : Json) (key : String) : Bool := value.get key == some (.bool true)

def textBlock (text : String) : Json := .object [("type", .str "text"), ("text", .str text)]

def startsWith (name lead : String) : Bool := lead.toList.isPrefixOf name.toList

/-- The name without the lead, where it has it. -/
def stripLead (name lead : String) : String :=
  if startsWith name lead then String.ofList (name.toList.drop lead.toList.length) else name

/-- A `tool_use` block as the agent should see it. -/
def stripToolUse (block : Json) : Option Json :=
  match strField block "id", strField block "name" with
  | some id, some name =>
    some (.object [("type", .str "tool_use"), ("id", .str id),
      ("name", .str (stripLead name TOOL_PREFIX)),
      ("input", (block.get "input").getD (.object []))])
  | _, _ => none

/-- Refuses a session that lists any tool other than ours. -/
def checkInit (ev : Json) : Except Failure Unit :=
  let ours := match (ev.get "tools").bind Json.asArray with
    | some tools => tools.all fun tool => tool.asStr.any (startsWith · TOOL_PREFIX)
    | none => false
  if ours then .ok ()
  else .error ⟨"backend_unavailable", "Claude Code exposed built-in tools; refusing"⟩

def cap (text : String) : String := String.ofList (text.toList.take MAX_ERR_TEXT)

def mapError (ev : Json) : Failure :=
  let text := cap ((strField ev "result").getD "")
  match (ev.get "api_error_status").bind Json.asU64 with
  | some status =>
    if status = 429 then
      ⟨"rate_limited", "Claude Code was rate-limited (HTTP 429)"⟩
    else if status = 401 ∨ status = 403 then
      ⟨"no_credential", "Claude Code rejected the stored token (HTTP " ++
        toString status.toNat ++ "): sign in again in Settings → Accounts, or run " ++
        "`ec-secret account login <account>`"⟩
    else
      ⟨"provider_error", "Claude Code failed (HTTP " ++ toString status.toNat ++ "): " ++ text⟩
  | none => ⟨"provider_error", "Claude Code failed: " ++ text⟩

/-- The turn's `result` event, as a completion or a mapped failure. -/
def finish (ev : Json) (texts : List Json) : Except Failure Turn :=
  if isTrue ev "is_error" then
    .error (mapError ev)
  else
    let texts := if texts.isEmpty then [textBlock ((strField ev "result").getD "")] else texts
    let tokens key := (((ev.get "usage").bind (·.get key)).bind Json.asU64).getD 0
    let cost := (ev.get "total_cost_usd").bind fun value =>
      match value with
      | .num number => some number
      | _ => none
    .ok (.done texts ((strField ev "stop_reason").getD "end_turn") (tokens "input_tokens")
      (tokens "output_tokens") cost)

def toolsTurn (texts toolUses : List Json) : Turn :=
  .tools (texts ++ toolUses) (toolUses.filterMap (strField · "id")).toFinset

/-- The texts and calls of a turn with one more block of an `assistant` event. -/
def takeBlock (taken : List Json × List Json) (block : Json) : List Json × List Json :=
  let type := strField block "type"
  if type = some "text" then
    match (strField block "text").filter (· ≠ "") with
    | some text => (taken.1 ++ [textBlock text], taken.2)
    | none => taken
  else if type = some "tool_use" then
    match stripToolUse block with
    | some toolUse => (taken.1, taken.2 ++ [toolUse])
    | none => taken
  else taken

/-- The turn that comes of what is read, and the model the session then names. -/
def readTurn (model : String) (texts toolUses : List Json) :
    List Event → String × Except Failure Turn
  | [] => (model, .error ⟨"provider_error", "Claude Code exited unexpectedly"⟩)
  | .exit :: _ => (model, .error ⟨"provider_error", "Claude Code exited unexpectedly"⟩)
  | .timeout :: _ =>
    if toolUses.isEmpty then
      (model, .error ⟨"timeout", "Claude Code did not finish the turn in time"⟩)
    else
      (model, .ok (toolsTurn texts toolUses))
  | .line ev :: events =>
    let type := strField ev "type"
    if type = some "system" then
      if strField ev "subtype" = some "init" then
        match checkInit ev with
        | .ok _ => readTurn ((strField ev "model").getD model) texts toolUses events
        | .error failure => (model, .error failure)
      else readTurn model texts toolUses events
    else if type = some "assistant" then
      let blocks := (((ev.get "message").bind (·.get "content")).bind Json.asArray).getD []
      let taken := blocks.foldl takeBlock (texts, toolUses)
      readTurn model taken.1 taken.2 events
    else if type = some "result" then
      (model, finish ev texts)
    else
      -- The echo of results, and whatever a newer process may write.
      readTurn model texts toolUses events

/-- The ids of the calls a turn's content makes. -/
def callsOf (content : List Json) : Finset String :=
  ((content.filter fun block => strField block "type" = some "tool_use").filterMap
    (strField · "id")).toFinset

theorem textBlock_type (text : String) : strField (textBlock text) "type" = some "text" := by
  simp [textBlock, strField, Json.object, JsonFields.ofList, JsonFields.get_set, Json.get,
    Json.asStr]

theorem stripToolUse_type {block toolUse : Json} (stripped : stripToolUse block = some toolUse) :
    strField toolUse "type" = some "tool_use" := by
  unfold stripToolUse at stripped
  split at stripped
  · cases stripped
    simp [strField, Json.object, JsonFields.ofList, JsonFields.get_set, Json.get, Json.asStr]
  · cases stripped

/-- Texts on one side and calls on the other. -/
structure Sorted (texts toolUses : List Json) : Prop where
  texts : ∀ block ∈ texts, strField block "type" = some "text"
  calls : ∀ block ∈ toolUses, strField block "type" = some "tool_use"

theorem Sorted.nil : Sorted [] [] := ⟨by simp, by simp⟩

theorem Sorted.takeBlock {taken : List Json × List Json} (sorted : Sorted taken.1 taken.2)
    (block : Json) : Sorted (takeBlock taken block).1 (takeBlock taken block).2 := by
  unfold Inferenced.takeBlock
  dsimp only
  split_ifs with isText isCall
  · split
    · refine ⟨?_, sorted.calls⟩
      intro other member
      rcases List.mem_append.mp member with old | new
      · exact sorted.texts other old
      · exact List.mem_singleton.mp new ▸ textBlock_type _
    · exact sorted
  · split
    · rename_i stripped
      refine ⟨sorted.texts, ?_⟩
      intro other member
      rcases List.mem_append.mp member with old | new
      · exact sorted.calls other old
      · exact List.mem_singleton.mp new ▸ stripToolUse_type stripped
    · exact sorted
  · exact sorted

theorem Sorted.takeBlocks (blocks : List Json) (taken : List Json × List Json)
    (sorted : Sorted taken.1 taken.2) :
    Sorted (blocks.foldl Inferenced.takeBlock taken).1
      (blocks.foldl Inferenced.takeBlock taken).2 := by
  induction blocks generalizing taken with
  | nil => exact sorted
  | cons block blocks induction => exact induction _ (sorted.takeBlock block)

theorem callsOf_texts {texts : List Json}
    (texts_are : ∀ block ∈ texts, strField block "type" = some "text") : callsOf texts = ∅ := by
  have none_left : (texts.filter fun block => strField block "type" = some "tool_use") = [] := by
    rw [List.filter_eq_nil_iff]
    intro block member
    simp [texts_are block member]
  rw [callsOf, none_left]
  rfl

theorem toolsTurn_ids {texts toolUses : List Json} (sorted : Sorted texts toolUses) :
    (toolsTurn texts toolUses).ids = callsOf (toolsTurn texts toolUses).content := by
  have kept : toolUses.filter (fun block => strField block "type" = some "tool_use") = toolUses :=
    List.filter_eq_self.mpr fun block member => by simp [sorted.calls block member]
  have dropped : texts.filter (fun block => strField block "type" = some "tool_use") = [] :=
    List.filter_eq_nil_iff.mpr fun block member => by simp [sorted.texts block member]
  simp [toolsTurn, Turn.ids, Turn.content, callsOf, kept, dropped]

theorem finish_ids {ev : Json} {texts : List Json} {turn : Turn}
    (texts_are : ∀ block ∈ texts, strField block "type" = some "text")
    (finished : finish ev texts = .ok turn) : turn.ids = callsOf turn.content := by
  unfold finish at finished
  split at finished
  · cases finished
  · cases finished
    rw [Turn.ids, Turn.content]
    split
    · refine (callsOf_texts ?_).symm
      intro block member
      exact List.mem_singleton.mp member ▸ textBlock_type _
    · exact (callsOf_texts texts_are).symm

theorem readTurn_ids {model last : String} {texts toolUses : List Json} {events : List Event}
    {turn : Turn} (sorted : Sorted texts toolUses)
    (read : readTurn model texts toolUses events = (last, .ok turn)) :
    turn.ids = callsOf turn.content := by
  induction events generalizing model texts toolUses with
  | nil => cases read
  | cons event events induction =>
    cases event with
    | exit => cases read
    | timeout =>
      rw [readTurn] at read
      split at read
      · cases read
      · cases read
        exact toolsTurn_ids sorted
    | line ev =>
      rw [readTurn] at read
      dsimp only at read
      split_ifs at read
      · split at read
        · exact induction sorted read
        · cases read
      · exact induction sorted read
      · exact induction (Sorted.takeBlocks _ (texts, toolUses) sorted) read
      · exact finish_ids sorted.texts (Prod.mk.inj read).2
      · exact induction sorted read

end EclipseOS.Inferenced
