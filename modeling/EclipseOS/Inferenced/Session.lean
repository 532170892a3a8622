import EclipseOS.Foundation.Json
import EclipseOS.Inferenced.Turn

/-! # Sessions

One task's session with a model process: how a request is mapped onto it, fed to it or
replayed to a new one, and what is kept of the turn that comes back. -/

namespace EclipseOS.Inferenced

open Foundation

structure Request where
  task : String
  package : String
  model : String
  system : String
  messages : Json
  tools : Json
  account : String

structure Key where
  system : String
  model : String
  tools : Json
  deriving DecidableEq

def Key.of (req : Request) : Key := ⟨req.system, req.model, req.tools⟩

structure ToolResult where
  text : String
  isError : Bool
  deriving DecidableEq

structure Session where
  /-- The number its directory is named with: no other start has it. -/
  number : Nat
  key : Key
  /-- The history this session has accounted for, with the turn it last returned. -/
  consumed : List Json
  /-- `tool_use` ids returned to the agent and not yet answered. -/
  outstanding : Finset String
  model : String

inductive Plan where
  | fresh
  | text (text : String)
  | results (results : List (String × ToolResult))

def blocksOf (message : Json) : List Json :=
  match message.get "content" with
  | some (.str text) => [textBlock text]
  | some (.arr items) => items.toList
  | _ => []

def BLOCK_FIELDS : List String :=
  ["type", "text", "id", "name", "input", "tool_use_id", "content", "is_error"]

def normBlock (block : Json) : Json :=
  .object (BLOCK_FIELDS.filterMap fun key => (block.get key).map fun value => (key, value))

def normMsg (message : Json) : Json :=
  .object [("role", (message.get "role").getD .null),
    ("content", .array ((blocksOf message).map normBlock))]

/-- Text of a `tool_result`'s `content`. -/
def resultText (content : Json) : String :=
  match content with
  | .str text => text
  | .arr items =>
    "\n".intercalate (items.toList.map fun block =>
      match strField block "text" with
      | some text =>
        if strField block "type" = some "text" then text else "[non-text content omitted]"
      | none => "[non-text content omitted]")
  | _ => ""

/-- The result a block of the agent's turn hands over. -/
def toolResult (block : Json) : ToolResult :=
  ⟨resultText ((block.get "content").getD .null), isTrue block "is_error"⟩

/-- The results and texts of a turn with one block more, or nothing where the block is
neither. -/
def addBlock (sorted : List (String × ToolResult) × List String) (block : Json) :
    Option (List (String × ToolResult) × List String) :=
  if strField block "type" = some "tool_result" then
    (strField block "tool_use_id").map fun id =>
      (sorted.1 ++ [(id, toolResult block)], sorted.2)
  else if strField block "type" = some "text" then
    some (sorted.1, sorted.2 ++ [(strField block "text").getD ""])
  else none

def sortBlocks (blocks : List Json) : Option (List (String × ToolResult) × List String) :=
  blocks.foldlM addBlock ([], [])

/-- How the request continues a live session; `exited` is whether its process is gone. -/
def planFor (exited : Bool) (session : Session) (key : Key) (messages : List Json) : Plan :=
  let n := session.consumed.length
  -- All of the key is fixed when a process starts, and history that does not extend ours
  -- by exactly one user turn is not an append.
  if exited ∨ session.key ≠ key ∨ messages.length ≠ n + 1 ∨
      ¬((session.consumed.zip messages).all fun pair => normMsg pair.1 == normMsg pair.2) then
    .fresh
  else
    match messages[n]? with
    | none => .fresh
    | some last =>
      if strField last "role" ≠ some "user" then .fresh
      else
        match sortBlocks (blocksOf last) with
        | none => .fresh
        | some (results, texts) =>
          if results ≠ [] ∧ texts = [] ∧ session.outstanding ≠ ∅ then
            let ids := (results.map (·.1)).toFinset
            if ids = session.outstanding ∧ ids.card = results.length then
              .results results
            else .fresh
          else if results = [] ∧ texts ≠ [] ∧ session.outstanding = ∅ then
            .text ("\n\n".intercalate texts)
          else .fresh

def transcriptBlock (who : String) (block : Json) : String :=
  let field key := (strField block key).getD ""
  match strField block "type" with
  | none => ""
  | some type =>
    if type = "text" then
      who ++ ": " ++ field "text" ++ "\n"
    else if type = "tool_use" then
      "Assistant called tool " ++ field "name" ++ " with input " ++
        ((block.get "input").getD .null).text ++ "\n"
    else if type = "tool_result" then
      "Tool result for " ++ field "tool_use_id" ++
        (if isTrue block "is_error" then " (error)" else "") ++ ": " ++
        resultText ((block.get "content").getD .null) ++ "\n"
    else if type = "thinking" ∨ type = "redacted_thinking" then
      ""
    else
      who ++ ": [" ++ type ++ " block omitted]\n"

def transcript (messages : List Json) : String :=
  let lines := messages.flatMap fun message =>
    let who := if strField message "role" = some "assistant" then "Assistant" else "User"
    (blocksOf message).map (transcriptBlock who)
  "[Earlier conversation, replayed because the session restarted. It is your own history; " ++
    "continue from it.]\n" ++ String.join lines ++ "[End of earlier conversation]"

/-- The first user turn of a fresh session: the earlier history as a transcript, then the
last turn itself. -/
def freshTurn (messages : List Json) : String :=
  match messages.getLast? with
  | none => ""
  | some last =>
    let blocks := blocksOf last
    if blocks ≠ [] ∧ ∀ block ∈ blocks, strField block "type" = some "text" then
      let text := "\n\n".intercalate (blocks.filterMap (strField · "text"))
      if messages.dropLast = [] then text
      else transcript messages.dropLast ++ "\n\n" ++ text
    else
      transcript messages ++ "\n\nContinue from where the conversation left off."

/-- What reaches a process: the first turn it is started for, or one for a live session. -/
inductive Feed where
  | fresh (text : String)
  | text (text : String)
  | results (results : List (String × ToolResult))
  deriving DecidableEq

def Feed.isFresh : Feed → Bool
  | fresh _ => true
  | _ => false

structure Completion where
  content : List Json
  stopReason : String
  model : String
  inputTokens : UInt64
  outputTokens : UInt64
  costUsd : Option Number

def assistant (content : List Json) : Json :=
  .object [("role", .str "assistant"), ("content", .array content)]

def Turn.completion (model : String) : Turn → Completion
  | tools content _ => ⟨content, "tool_use", model, 0, 0, none⟩
  | done content stopReason inputTokens outputTokens costUsd =>
    ⟨content, stopReason, model, inputTokens, outputTokens, costUsd⟩

/-- What a request meets outside the router's own state. -/
structure World where
  /-- Whether the task's slot is there, or can be made. -/
  slot : Except Failure Unit
  /-- Whether the live session's process is seen to be gone. -/
  exited : Bool
  /-- Whether there is a directory for sessions, and a program to start. -/
  baseDir : Bool
  claude : Bool
  token : Except Failure Unit
  /-- What comes of preparing the directory and starting the process. -/
  started : Except Failure Unit
  /-- Whether the process takes a turn that is written to it. -/
  accepts : Bool
  events : List Event

def MAX_SYSTEM : Nat := 100 * 1024

/-- A new session for the request; `seq` is the number of the next start, and the number
after it is returned. -/
def start (world : World) (req : Request) (seq : Nat) : Nat × Except Failure Session :=
  if ¬world.baseDir then
    (seq, .error ⟨"backend_unavailable", "XDG_RUNTIME_DIR is not set"⟩)
  else if ¬world.claude then
    (seq, .error ⟨"backend_unavailable",
      "Claude Code is not installed (set ECLIPSE_CLAUDE_BIN)"⟩)
  else if MAX_SYSTEM < req.system.utf8ByteSize then
    (seq, .error ⟨"bad_request", "the system prompt is too long for Claude Code"⟩)
  else
    match world.token with
    | .error failure => (seq, .error failure)
    | .ok _ =>
      match world.started with
      | .error failure => (seq + 1, .error failure)
      | .ok _ => (seq + 1, .ok ⟨seq, Key.of req, [], ∅, req.model⟩)

/-- What a request left to be seen: what was fed to which process, and its answer. -/
structure Reply where
  fed : Option (Nat × Feed)
  answer : Except Failure Completion

/-- A task's session and the number of the next start. -/
structure State where
  session : Option Session
  seq : Nat

def turn (world : World) (messages : List Json) (session : Session) (feed : Feed) (seq : Nat) :
    State × Reply :=
  let written : Bool := match feed with
    | .results _ => true
    | _ => world.accepts
  if ¬written then
    (⟨none, seq⟩, ⟨some (session.number, feed),
      .error ⟨"provider_error", "Claude Code is not accepting input"⟩⟩)
  else
    match readTurn session.model [] [] world.events with
    | (model, .ok turn) =>
      (⟨some ⟨session.number, session.key, messages ++ [assistant turn.content], turn.ids,
          model⟩, seq⟩,
        ⟨some (session.number, feed), .ok (turn.completion model)⟩)
    | (_, .error failure) =>
      -- The conversation's state is unknown: the next request replays the history.
      (⟨none, seq⟩, ⟨some (session.number, feed), .error failure⟩)

/-- `Inner::run`. -/
def run (world : World) (req : Request) (messages : List Json) (state : State) :
    State × Reply :=
  let plan := match state.session with
    | some session => planFor world.exited session (Key.of req) messages
    | none => .fresh
  match state.session, plan with
  | some session, .text text => turn world messages session (.text text) state.seq
  | some session, .results results => turn world messages session (.results results) state.seq
  | _, _ =>
    match start world req state.seq with
    | (seq, .error failure) => (⟨none, seq⟩, ⟨none, .error failure⟩)
    | (seq, .ok session) => turn world messages session (.fresh (freshTurn messages)) seq

/-- A task id becomes a directory name and a socket path component. -/
def validTask (task : String) : Bool :=
  task ≠ "" ∧ task.utf8ByteSize ≤ 64 ∧
    task.toList.all fun char => char.isAlphanum ∨ char = '_' ∨ char = '-'

/-- `Inner::complete`, for a request that has the task's slot to itself. -/
def complete (world : World) (req : Request) (state : State) : State × Reply :=
  if ¬validTask req.task then
    (state, ⟨none, .error ⟨"bad_request", "malformed task id"⟩⟩)
  else
    match req.messages.asArray.filter (· ≠ []) with
    | none => (state, ⟨none, .error ⟨"bad_request", "messages must be a non-empty array"⟩⟩)
    | some messages =>
      if (messages.getLast?.bind (strField · "role")) ≠ some "user" then
        (state, ⟨none, .error ⟨"bad_request", "the last message must be a user turn"⟩⟩)
      else
        match world.slot with
        | .error failure => (state, ⟨none, .error failure⟩)
        | .ok _ => run world req messages state

/-- The result, with the call it is for, of a block that is one. -/
def resultOf (block : Json) : Option (String × ToolResult) :=
  if strField block "type" = some "tool_result" then
    (strField block "tool_use_id").map fun id => (id, toolResult block)
  else none

def textOf (block : Json) : Option String :=
  if strField block "type" = some "text" then some ((strField block "text").getD "") else none

theorem addBlock_cases {sorted next : List (String × ToolResult) × List String} {block : Json}
    (added : addBlock sorted block = some next) :
    (∃ result, resultOf block = some result ∧ next = (sorted.1 ++ [result], sorted.2)) ∨
      ∃ text, textOf block = some text ∧ next = (sorted.1, sorted.2 ++ [text]) := by
  unfold addBlock at added
  split_ifs at added with isResult isText
  · rcases Option.map_eq_some_iff.mp added with ⟨id, named, rfl⟩
    exact .inl ⟨(id, toolResult block), by rw [resultOf, if_pos isResult, named]; rfl, rfl⟩
  · cases added
    exact .inr ⟨_, by rw [textOf, if_pos isText], rfl⟩

/-- Blocks sorted into results and texts are all results where there is no text, and all
texts where there is no result. -/
theorem sortBlocks_some {blocks : List Json} {results : List (String × ToolResult)}
    {texts : List String} (sorted : sortBlocks blocks = some (results, texts)) :
    (results = [] → blocks.map textOf = texts.map some) ∧
      (texts = [] → blocks.map resultOf = results.map some) := by
  have general : ∀ (blocks : List Json) (before after : List (String × ToolResult) × List String),
      blocks.foldlM addBlock before = some after →
        ∃ newer later, after = (before.1 ++ newer, before.2 ++ later) ∧
          (newer = [] → blocks.map textOf = later.map some) ∧
            (later = [] → blocks.map resultOf = newer.map some) := by
    intro blocks
    induction blocks with
    | nil =>
      intro before after same
      cases same
      exact ⟨[], [], by simp, by simp, by simp⟩
    | cons block blocks induction =>
      intro before after folded
      rw [List.foldlM_cons] at folded
      rcases Option.bind_eq_some_iff.mp folded with ⟨next, added, rest⟩
      rcases induction next after rest with ⟨newer, later, rfl, texts, results⟩
      rcases addBlock_cases added with ⟨result, isResult, rfl⟩ | ⟨text, isText, rfl⟩
      · refine ⟨result :: newer, later, by simp, by simp, fun none_later => ?_⟩
        rw [List.map_cons, List.map_cons, isResult, results none_later]
      · refine ⟨newer, text :: later, by simp, fun none_newer => ?_, by simp⟩
        rw [List.map_cons, List.map_cons, isText, texts none_newer]
  rcases general blocks ([], []) _ sorted with ⟨newer, later, same, texts_are, results_are⟩
  simp only [List.nil_append, Prod.mk.injEq] at same
  rcases same with ⟨rfl, rfl⟩
  exact ⟨texts_are, results_are⟩

/-- The messages are the history the session has accounted for, and one user turn. -/
structure Appends (session : Session) (key : Key) (messages : List Json) (last : Json) :
    Prop where
  key : session.key = key
  history : ∃ prior, messages = prior ++ [last] ∧
    prior.map normMsg = session.consumed.map normMsg
  user : strField last "role" = some "user"

theorem zip_normMsg {consumed prior : List Json} {last : Json}
    (lengths : prior.length = consumed.length)
    (equal : (consumed.zip (prior ++ [last])).all
      (fun pair => normMsg pair.1 == normMsg pair.2) = true) :
    prior.map normMsg = consumed.map normMsg := by
  induction consumed generalizing prior with
  | nil => rw [List.length_eq_zero_iff.mp lengths]
  | cons message consumed induction =>
    rcases prior with _ | ⟨first, prior⟩
    · cases lengths
    · rw [List.cons_append, List.zip_cons_cons, List.all_cons, Bool.and_eq_true] at equal
      rw [List.map_cons, List.map_cons, induction (Nat.succ.inj lengths) equal.2]
      rw [eq_of_beq equal.1]

theorem planFor_cases {exited : Bool} {session : Session} {key : Key} {messages : List Json}
    {plan : Plan} (planned : planFor exited session key messages = plan) :
    plan = .fresh ∨ ∃ last, Appends session key messages last ∧
      ((∃ results, plan = .results results ∧
          (blocksOf last).map resultOf = results.map some ∧
          (results.map (·.1)).Nodup ∧ (results.map (·.1)).toFinset = session.outstanding) ∨
        ∃ texts, plan = .text ("\n\n".intercalate texts) ∧
          (blocksOf last).map textOf = texts.map some ∧ session.outstanding = ∅) := by
  unfold planFor at planned
  dsimp only at planned
  split_ifs at planned with differs
  · exact .inl planned.symm
  · split at planned
    · exact .inl planned.symm
    · rename_i last found
      split_ifs at planned with role
      · exact .inl planned.symm
      · split at planned
        · exact .inl planned.symm
        · rename_i results texts sorted
          have split := sortBlocks_some sorted
          simp only [not_or, not_not] at differs
          rcases differs with ⟨-, sameKey, longer, equal⟩
          have last_is : messages.getLast? = some last := by
            rw [List.getLast?_eq_getElem?, longer]
            exact found
          have parts : messages = messages.dropLast ++ [last] :=
            (List.dropLast_append_getLast? last last_is).symm
          have appends : Appends session key messages last := by
            refine ⟨sameKey, ⟨messages.dropLast, parts, ?_⟩, not_not.mp role⟩
            rw [parts] at equal
            exact zip_normMsg (by simp [longer]) equal
          split_ifs at planned with asResults ids asTexts
          · refine .inr ⟨last, appends, .inl ⟨results, planned.symm, ?_, ?_, ids.1⟩⟩
            · exact split.2 asResults.2.1
            · have same_size : (results.map (·.1)).dedup.length =
                  (results.map (·.1)).length := by
                rw [← List.card_toFinset, ids.2, List.length_map]
              exact (List.dedup_sublist _).eq_of_length same_size ▸ List.nodup_dedup _
          · exact .inl planned.symm
          · refine .inr ⟨last, appends, .inr ⟨texts, planned.symm, ?_, asTexts.2.2⟩⟩
            exact split.1 asTexts.1
          · exact .inl planned.symm

/-- A session that just started for the request. -/
def Session.begun (number : Nat) (req : Request) : Session :=
  ⟨number, Key.of req, [], ∅, req.model⟩

theorem start_ok {world : World} {req : Request} {seq next : Nat} {session : Session}
    (started : start world req seq = (next, .ok session)) :
    next = seq + 1 ∧ session = Session.begun seq req := by
  unfold start at started
  split_ifs at started
  · cases started
  · split at started
    · cases started
    · split at started
      · cases started
      · cases started
        exact ⟨rfl, rfl⟩
  · cases started
  · cases started

theorem start_seq_le {world : World} {req : Request} {seq next : Nat}
    {result : Except Failure Session} (started : start world req seq = (next, result)) :
    seq ≤ next := by
  unfold start at started
  split_ifs at started
  case neg =>
    split at started
    · exact (Prod.mk.inj started).1.le
    · split at started
      · exact (Prod.mk.inj started).1 ▸ Nat.le_succ seq
      · exact (Prod.mk.inj started).1 ▸ Nat.le_succ seq
  all_goals exact (Prod.mk.inj started).1.le

/-- What a fed turn leaves: the session with its history one turn longer, or none. -/
inductive Fed (session : Session) (feed : Feed) (messages : List Json) (seq : Nat) :
    State → Reply → Prop
  | answered (turn : Turn) (model : String) (ids : turn.ids = callsOf turn.content) :
      Fed session feed messages seq
        ⟨some ⟨session.number, session.key, messages ++ [assistant turn.content], turn.ids,
          model⟩, seq⟩
        ⟨some (session.number, feed), .ok (turn.completion model)⟩
  | failed (failure : Failure) :
      Fed session feed messages seq ⟨none, seq⟩
        ⟨some (session.number, feed), .error failure⟩

theorem turn_fed (world : World) (messages : List Json) (session : Session) (feed : Feed)
    (seq : Nat) :
    Fed session feed messages seq (turn world messages session feed seq).1
      (turn world messages session feed seq).2 := by
  unfold turn
  dsimp only
  split_ifs
  · split
    · rename_i model turn read
      exact .answered turn model (readTurn_ids Sorted.nil read)
    · exact .failed _
  · exact .failed _

/-- What a request can do to a task's session. -/
inductive Ran (req : Request) (messages : List Json) (state : State) : State → Reply → Prop
  | unstarted (seq : Nat) (later : state.seq ≤ seq) (failure : Failure) :
      Ran req messages state ⟨none, seq⟩ ⟨none, .error failure⟩
  | started (next : State) (reply : Reply)
      (fed : Fed (Session.begun state.seq req) (.fresh (freshTurn messages)) messages
        (state.seq + 1) next reply) :
      Ran req messages state next reply
  | text (session : Session) (live : state.session = some session) (exited : Bool)
      (text : String) (plan : planFor exited session (Key.of req) messages = .text text)
      (next : State) (reply : Reply)
      (fed : Fed session (.text text) messages state.seq next reply) :
      Ran req messages state next reply
  | results (session : Session) (live : state.session = some session) (exited : Bool)
      (results : List (String × ToolResult))
      (plan : planFor exited session (Key.of req) messages = .results results)
      (next : State) (reply : Reply)
      (fed : Fed session (.results results) messages state.seq next reply) :
      Ran req messages state next reply

theorem run_ran (world : World) (req : Request) (messages : List Json) (state : State) :
    Ran req messages state (run world req messages state).1
      (run world req messages state).2 := by
  have restart : ∀ result, start world req state.seq = result →
      Ran req messages state
        (match result with
          | (seq, .error failure) => ((⟨none, seq⟩ : State), (⟨none, .error failure⟩ : Reply))
          | (seq, .ok session) =>
            turn world messages session (.fresh (freshTurn messages)) seq).1
        (match result with
          | (seq, .error failure) => ((⟨none, seq⟩ : State), (⟨none, .error failure⟩ : Reply))
          | (seq, .ok session) =>
            turn world messages session (.fresh (freshTurn messages)) seq).2 := by
    rintro ⟨seq, failure | session⟩ started
    · exact .unstarted seq (start_seq_le started) failure
    · rcases start_ok started with ⟨rfl, rfl⟩
      exact .started _ _ (turn_fed ..)
  unfold run
  rcases state with ⟨none | session, seq⟩
  · exact restart _ rfl
  · dsimp only
    split
    · rename_i same plan
      cases same
      exact .text _ rfl world.exited _ plan _ _ (turn_fed ..)
    · rename_i same plan
      cases same
      exact .results _ rfl world.exited _ plan _ _ (turn_fed ..)
    · exact restart _ rfl

theorem complete_cases (world : World) (req : Request) (state : State) :
    ((complete world req state).1 = state ∧ (complete world req state).2.fed = none) ∨
      ∃ messages, req.messages.asArray = some messages ∧
        (messages.getLast?.bind (strField · "role")) = some "user" ∧
        Ran req messages state (complete world req state).1 (complete world req state).2 := by
  unfold complete
  split_ifs
  · split
    · exact .inl ⟨rfl, rfl⟩
    · rename_i messages taken
      split_ifs with role
      · exact .inl ⟨rfl, rfl⟩
      · split
        · exact .inl ⟨rfl, rfl⟩
        · refine .inr ⟨messages, ?_, not_not.mp role, run_ran ..⟩
          exact (Option.filter_eq_some_iff.mp taken).1
  · exact .inl ⟨rfl, rfl⟩

end EclipseOS.Inferenced
