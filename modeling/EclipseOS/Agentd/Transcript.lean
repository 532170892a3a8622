import EclipseOS.Agentd.Quiet
import EclipseOS.Agentd.Run
import EclipseOS.Foundation.History
import EclipseOS.Foundation.Json
import EclipseOS.PolicyEval.Glob
import EclipseOS.Policyd.Tasks.ScopeLines

/-! # Conversations on the disk

A conversation's messages are appended to its own file, a line each, before a post is
answered, and read back when `agentd` starts. An append that fails leaves what was
written of its line. The JSON reader is a parameter. -/

namespace EclipseOS.Agentd

open Foundation PolicyEval

/-! ## Messages -/

def MessageKind.parse (text : String) : Option MessageKind :=
  match text with
  | "say" => some .say
  | "ask" => some .ask
  | "human" => some .human
  | "context" => some .context
  | _ => none

theorem MessageKind.parse_asStr (kind : MessageKind) :
    MessageKind.parse kind.asStr = some kind := by
  cases kind <;> rfl

namespace Message

def fromJson (value : Json) : Option Message := do
  let msgId ← (← value.get "msg_id").asU64
  let timeMs ← (← value.get "time_ms").asU64
  let kind ← MessageKind.parse (← (← value.get "kind").asStr)
  let text ← (← value.get "text").asStr
  let replyTo := (value.get "reply_to").bind Json.asU64
  let minTrust ← (← (← value.get "trust").get "min_trust").asStr
  let head ← (← (← value.get "trust").get "head").asStr
  return ⟨msgId.toNat, timeMs.toNat, kind, text, replyTo, minTrust, head⟩

theorem fromJson_toJson (message : Message) : fromJson message.toJson =
    some { message with
      msgId := message.msgId % 2 ^ 64
      timeMs := message.timeMs % 2 ^ 64 } := by
  rcases message with ⟨msgId, timeMs, kind, text, replyTo, minTrust, head⟩
  cases replyTo with
  | none =>
    simp [fromJson, toJson, withReply, trust, Json.object, JsonFields.ofList, Json.get,
      JsonFields.get_set, JsonFields.get, Json.asStr, Json.asU64, Json.ofNat,
      MessageKind.parse_asStr]
  | some id =>
    simp [fromJson, toJson, withReply, trust, Json.object, JsonFields.ofList, Json.get, Json.set,
      JsonFields.get_set, Json.asStr, Json.asU64, Json.ofNat, MessageKind.parse_asStr]

theorem tidy_toJson (message : Message) : message.toJson.Tidy := by
  have trusted : message.trust.Tidy := Json.tidy_object (by simp [Json.Tidy])
  rw [toJson]
  cases message.replyTo with
  | none => exact Json.tidy_object (by simp [Json.Tidy, Json.ofNat, trusted])
  | some id =>
    exact Json.tidy_set (Json.tidy_object (by simp [Json.Tidy, Json.ofNat, trusted])) trivial

end Message

/-! ## The file of a conversation -/

namespace Transcript

/-- What `Store::append` writes. -/
def line (message : Message) : String := message.toJson.text ++ "\n"

/-- What reaches the file: all of the line, or what was written before the write failed. -/
def written (message : Message) : Option Nat → Bytes
  | none => Cbor.utf8 (line message)
  | some count => (Cbor.utf8 (line message)).dropLast.take count

section Reading

variable (read : String → Option Json)

def readLine (line : List Char) : Option Message :=
  (read (String.ofList line)).bind Message.fromJson

/-- The messages of a file: none if it is not a text, and no message of a line that does
not parse. -/
def loadLog (log : Bytes) : List Message :=
  match Cbor.fromUtf8 log with
  | none => []
  | some text => (Policyd.lines [] text.toList).filterMap (readLine read)

def pushLoaded (task : Task) (message : Message) : Task :=
  { task with
    nextMsg := max task.nextMsg (message.msgId + 1)
    msgs := task.msgs ++ [message] }

/-- `Store::load_all`, over what the readable `meta.json` files hold. -/
def loadAll (metas : List Task) (disk : String → Option Bytes) : List Task :=
  metas.map fun task =>
    match disk task.id with
    | none => task
    | some log => (loadLog read log).foldl pushLoaded task

end Reading

/-! ## Posts -/

/-- A post by a human, or a `say` or `ask` by a task's agent. -/
inductive Post where
  | human (params : Json)
  | agent (task : String) (kind : MessageKind) (raw : String)

namespace Post

def run [Blake3] (post : Post) (core : Core) (host : Host) : Option Json × Core :=
  match post with
  | .human params =>
    ((core.conversationPost host params).1.toOption, (core.conversationPost host params).2)
  | .agent id kind raw =>
    ((core.agentPost host id kind raw).1.toOption, (core.agentPost host id kind raw).2)

/-- The message handed to `Store::append`, and its task, if a post gets that far. -/
def handed (post : Post) (core : Core) (host : Host) : Option (String × Message) :=
  match post with
  | .human params =>
    match core.postable params with
    | .error _ => none
    | .ok (task, text, replyTo) =>
      some (task.id,
        ⟨task.nextMsg, host.now, .human, text, replyTo, "standard", "human_client"⟩)
  | .agent id kind raw =>
    match core.sayable id raw with
    | .error _ => none
    | .ok (task, text) =>
      let window := task.window.dropWhile fun post => windowMs ≤ host.now - post.1
      if msgsPerMin ≤ window.length ∨
          bytesPerMin < (window.map Prod.snd).sum + text.utf8ByteSize then
        none
      else
        some (id, ⟨task.nextMsg, host.now, kind, text, none, task.minTrust, task.principal⟩)

end Post

def answeredId (answer : Json) : Option Nat :=
  ((answer.get "msg_id").bind Json.asU64).map UInt64.toNat

/-! ## Posts and restarts -/

/-- `agentd`, the conversations on its disk, and the ids and texts of the posts it took. -/
structure Machine where
  core : Core
  disk : String → Option Bytes
  acked : String → List (Nat × String)

/-- A post, with where its append fails if it does, or `agentd` starting again over the
`meta.json` files it finds. -/
inductive Event where
  | post (post : Post) (host : Host) (fault : Option Nat)
  | restart (settings : Config) (host : Host) (metas : List Task)

/-- The machine while an append fails, or does not. -/
def stored (host : Host) (fault : Option Nat) : Host :=
  { host with messageStored := fault.isNone }

namespace Machine

def start (core : Core) : Machine := ⟨core, fun _ => none, fun _ => []⟩

def append (disk : String → Option Bytes) (id : String) (bytes : Bytes) : String → Option Bytes :=
  Function.update disk id (some ((disk id).getD [] ++ bytes))

theorem append_self {disk : String → Option Bytes} {id : String} {bytes : Bytes} :
    append disk id bytes id = some ((disk id).getD [] ++ bytes) :=
  Function.update_self ..

theorem append_of_ne {disk : String → Option Bytes} {id other : String} {bytes : Bytes}
    (apart : other ≠ id) : append disk id bytes other = disk other :=
  Function.update_of_ne apart ..

/-- The answer's id beside the text it is for. -/
def acknowledge (acked : String → List (Nat × String)) (id text : String) (answer : Option Json) :
    String → List (Nat × String) :=
  match answer.bind answeredId with
  | some msgId => Function.update acked id (acked id ++ [(msgId, text)])
  | none => acked

def post [Blake3] (machine : Machine) (post : Post) (host : Host) (fault : Option Nat) : Machine :=
  let (answer, core) := post.run machine.core (stored host fault)
  match post.handed machine.core host with
  | none => { machine with core }
  | some (id, message) =>
    ⟨core, append machine.disk id (written message fault),
      acknowledge machine.acked id message.text answer⟩

/-- The retention sweep of a start removes the conversations of the tasks it removes. -/
def restart (read : String → Option Json) (machine : Machine) (settings : Config) (host : Host)
    (metas : List Task) : Machine :=
  let core := Core.new settings host (loadAll read metas machine.disk)
  { machine with
    core
    disk := fun id =>
      if id ∈ metas.map Task.id ∧ (core.task id).isNone then none else machine.disk id }

def step [Blake3] (read : String → Option Json) (machine : Machine) : Event → Machine
  | .post by' host fault => machine.post by' host fault
  | .restart settings host metas => machine.restart read settings host metas

end Machine

/-- The conversations on the disk yield the messages whose posts were taken, in order and
with their texts. -/
structure Survives (read : String → Option Json) (machine : Machine) (id : String) : Prop where
  loaded : ∀ log, machine.disk id = some log →
    (machine.acked id).Sublist
      ((loadLog read log).map fun message => (message.msgId, message.text))
  increasing : (machine.acked id).Pairwise fun left right => left.1 < right.1

def EndsLine (log : Bytes) : Prop := log.getLast?.all (· = 10)

instance (log : Bytes) : Decidable (EndsLine log) := inferInstanceAs (Decidable (_ = true))

/-- A post that is stored follows a whole line, and its id is one of 64 bits; one that is
not leaves no part of a character behind what was taken. -/
def Meets (machine : Machine) : Event → Prop
  | .post by' host fault =>
    ∀ id message, by'.handed machine.core host = some (id, message) →
      match fault with
      | none => EndsLine ((machine.disk id).getD []) ∧
          ∀ task, machine.core.task id = some task → task.nextMsg < 2 ^ 64
      | some count => machine.acked id = [] ∨
          (Cbor.fromUtf8 (written message (some count))).isSome
  | .restart .. => True

/-! ## Reading a file back -/

section Reading

variable {read : String → Option Json} {messages : List Message}

theorem newline_notMem_utf8 {text : String} (oneLine : Json.OneLine text) :
    (10 : UInt8) ∉ Cbor.utf8 text := by
  intro member
  rw [← String.ofList_toList (s := text)] at member
  exact oneLine.1 (Glob.mem_of_mem_utf8 (by decide) member)

theorem utf8_line (message : Message) :
    Cbor.utf8 (line message) = Cbor.utf8 message.toJson.text ++ [10] := by
  rw [line, Glob.utf8_append]
  rfl

theorem utf8_lines (messages : List Message) (tail : String) :
    (messages.flatMap fun message => Cbor.utf8 (line message)) ++ Cbor.utf8 tail =
      Cbor.utf8 (String.ofList
        ((messages.flatMap fun message => (line message).toList) ++ tail.toList)) := by
  induction messages with
  | nil => simp
  | cons message messages induction =>
    rw [List.flatMap_cons, List.append_assoc, induction, ← Glob.utf8_append, List.flatMap_cons]
    simp only [String.ofList_append, String.ofList_toList, String.append_assoc]

theorem lines_messages (messages : List Message) (tail : List Char) :
    Policyd.lines [] ((messages.flatMap fun message => (line message).toList) ++ tail) =
      (messages.map fun message => message.toJson.text.toList) ++ Policyd.lines [] tail := by
  induction messages with
  | nil => rfl
  | cons message messages induction =>
    have oneLine := Json.oneLine_text message.toJson message.tidy_toJson
    have split := Policyd.lines_append oneLine.1 oneLine.2 List.not_mem_nil
      ((messages.flatMap fun message => (line message).toList) ++ tail)
    rw [induction] at split
    rw [List.flatMap_cons, line, String.toList_append, List.append_assoc, List.append_assoc]
    exact split

/-- A message that is read back with its own id. -/
structure ReadsBack (read : String → Option Json) (message : Message) : Prop where
  reads : read message.toJson.text = some message.toJson
  small : message.msgId < 2 ^ 64

def entry (message : Message) : Nat × String := (message.msgId, message.text)

theorem entries_filterMap (back : ∀ message ∈ messages, ReadsBack read message) :
    ((messages.map fun message => message.toJson.text.toList).filterMap (readLine read)).map entry =
      messages.map entry := by
  induction messages with
  | nil => rfl
  | cons message messages induction =>
    rw [List.forall_mem_cons] at back
    have first : readLine read message.toJson.text.toList =
        some { message with
          msgId := message.msgId % 2 ^ 64
          timeMs := message.timeMs % 2 ^ 64 } := by
      rw [readLine, String.ofList_toList, back.1.reads, Option.bind_some, Message.fromJson_toJson]
    rw [List.map_cons, List.filterMap_cons_some first, List.map_cons, induction back.2,
      List.map_cons]
    rw [entry, entry, Nat.mod_eq_of_lt back.1.small]

/-- What a file holds: a line for each message that was taken, and what failed appends left
behind them. -/
structure Holds (read : String → Option Json) (acked : List (Nat × String)) (log : Bytes)
    (messages : List Message) (rest : Bytes) : Prop where
  acked : acked = messages.map entry
  back : ∀ message ∈ messages, ReadsBack read message
  log : log = (messages.flatMap fun message => Cbor.utf8 (line message)) ++ rest
  unended : (10 : UInt8) ∉ rest
  whole : messages = [] ∨ (Cbor.fromUtf8 rest).isSome

theorem Holds.loaded {acked : List (Nat × String)} {log rest : Bytes}
    (holds : Holds read acked log messages rest) :
    acked.Sublist ((loadLog read log).map entry) := by
  rw [holds.acked]
  rcases holds.whole with rfl | whole
  · exact List.nil_sublist _
  · rcases Option.isSome_iff_exists.mp whole with ⟨tail, decoded⟩
    rw [holds.log, ← Cbor.utf8_of_fromUtf8 decoded, utf8_lines, loadLog, Cbor.fromUtf8_utf8]
    simp only [String.toList_ofList]
    rw [lines_messages, List.filterMap_append, List.map_append, entries_filterMap holds.back]
    exact List.sublist_append_left _ _

theorem holds_nil : Holds read [] [] [] [] where
  acked := rfl
  back := by simp
  log := rfl
  unended := by simp
  whole := .inl rfl

theorem Holds.add {acked : List (Nat × String)} {log rest : Bytes} {message : Message}
    (holds : Holds read acked log messages rest) (ends : EndsLine log)
    (back : ReadsBack read message) :
    Holds read (acked ++ [entry message]) (log ++ written message none)
      (messages ++ [message]) [] := by
  have none : rest = [] := by
    rcases List.eq_nil_or_concat rest with empty | ⟨front, last, split⟩
    · exact empty
    · have ending := ends
      rw [EndsLine, holds.log, split, List.concat_eq_append, ← List.append_assoc,
        List.getLast?_concat, Option.all_some, decide_eq_true_eq] at ending
      refine absurd ?_ holds.unended
      rw [split, List.concat_eq_append, ending]
      exact List.mem_append_right _ List.mem_cons_self
  constructor
  · rw [holds.acked, List.map_append, List.map_singleton]
  · intro other member
    rcases List.mem_append.mp member with old | new
    · exact holds.back other old
    · rw [List.mem_singleton.mp new]
      exact back
  · rw [holds.log, none, List.flatMap_append, List.flatMap_singleton, written]
    simp
  · simp
  · exact .inr rfl

theorem Holds.tear {acked : List (Nat × String)} {log rest : Bytes} {message : Message}
    {count : Nat} (holds : Holds read acked log messages rest)
    (whole : acked = [] ∨ (Cbor.fromUtf8 (written message (some count))).isSome) :
    Holds read acked (log ++ written message (some count)) messages
      (rest ++ written message (some count)) := by
  have oneLine := Json.oneLine_text message.toJson message.tidy_toJson
  constructor
  · exact holds.acked
  · exact holds.back
  · rw [holds.log, List.append_assoc]
  · rw [List.mem_append, not_or]
    refine ⟨holds.unended, fun member => newline_notMem_utf8 oneLine ?_⟩
    rw [written, utf8_line, List.dropLast_concat] at member
    exact List.mem_of_mem_take member
  · rcases whole with none | whole
    · rw [holds.acked, List.map_eq_nil_iff] at none
      exact .inl none
    · refine holds.whole.imp_right fun before => ?_
      rcases Option.isSome_iff_exists.mp before with ⟨left, decoded⟩
      rcases Option.isSome_iff_exists.mp whole with ⟨right, decoded'⟩
      rw [← Cbor.utf8_of_fromUtf8 decoded, ← Cbor.utf8_of_fromUtf8 decoded', ← Glob.utf8_append,
        Cbor.fromUtf8_utf8]
      rfl

end Reading

/-! ## What a post changes -/

section Posting

variable [Blake3] {core before after : Core} {host : Host} {post : Post} {id : String}
  {message : Message}

omit [Blake3] in
theorem task_of_tasks (same : after.tasks = before.tasks) : after.task id = before.task id := by
  rw [Core.task, Core.task, same]

theorem tasks_channelAudit {principal op : String} {audited : Option Message} {size : Nat} :
    (core.channelAudit id principal audited size op).tasks = core.tasks := by
  rw [Core.channelAudit, Core.sendAuditBytes]
  split
  · rfl
  · split <;> rfl

/-- An open task was open before, and its next message has the same id. -/
def Carries (before after : Core) : Prop :=
  ∀ id task, after.task id = some task → task.isClosed = false →
    ∃ held, before.task id = some held ∧ held.isClosed = false ∧ held.nextMsg = task.nextMsg

omit [Blake3] in
theorem carries_of_tasks (same : after.tasks = before.tasks) : Carries before after := by
  intro id task found isOpen
  rw [task_of_tasks same] at found
  exact ⟨task, found, isOpen, rfl⟩

omit [Blake3] in
theorem carries_setTask {task held : Task} (found : core.task task.id = some held)
    (state : task.isClosed = held.isClosed) (next : task.nextMsg = held.nextMsg) :
    Carries core (core.setTask task) := by
  intro id after changed isOpen
  rw [Core.task_setTask] at changed
  rcases Option.map_eq_some_iff.mp changed with ⟨old, before, rfl⟩
  by_cases same : old.id = task.id
  · rw [if_pos same] at isOpen ⊢
    rw [← Core.id_of_task before, same]
    exact ⟨held, found, state ▸ isOpen, next.symm⟩
  · rw [if_neg same] at isOpen ⊢
    exact ⟨old, before, isOpen, rfl⟩

/-- A message was given the next id of its task, and answered with it. -/
structure Took (before after : Core) (id : String) (message : Message) (answer : Option Json) :
    Prop where
  answer : answer.bind answeredId = some (message.msgId % 2 ^ 64)
  here : ∀ task, after.task id = some task → task.nextMsg = message.msgId + 1
  others : ∀ other, other ≠ id → after.task other = before.task other

omit [Blake3] in
theorem isOpen_of_postable {params : Json} {task : Task} {text : String}
    {replyTo : Option UInt64} (checked : core.postable params = .ok (task, text, replyTo)) :
    task.isClosed = false := by
  simp only [Core.postable, bind, Except.bind, pure, Except.pure, throw, throwThe,
    MonadExceptOf.throw] at checked
  repeat' split at checked
  all_goals try cases checked
  exact Bool.eq_false_iff.mpr ‹_›

omit [Blake3] in
theorem isOpen_of_sayable {raw text : String} {task : Task}
    (checked : core.sayable id raw = .ok (task, text)) : task.isClosed = false := by
  have found := Core.sayable_task checked
  simp only [Core.sayable, found, Option.elim, bind, Except.bind, pure, Except.pure, throw,
    throwThe, MonadExceptOf.throw] at checked
  repeat' split at checked
  all_goals try cases checked
  exact Bool.eq_false_iff.mpr ‹_›

omit [Blake3] in
theorem took_of_setTask {task held : Task} {answer : Option Json}
    (found : core.task id = some held)
    (same : after.tasks = (core.setTask task).tasks) (named : task.id = id)
    (moved : task.nextMsg = message.msgId + 1)
    (answered : answer.bind answeredId = some (message.msgId % 2 ^ 64)) :
    Took core after id message answer := by
  subst named
  have changed (id : String) : after.task id =
      (core.task id).map fun held => if held.id = task.id then task else held := by
    rw [task_of_tasks same, Core.task_setTask]
  constructor
  · exact answered
  · intro kept here
    rw [changed, found, Option.map_some, if_pos (Core.id_of_task found)] at here
    rw [← Option.some.inj here, moved]
  · intro other apart
    rw [changed]
    cases before : core.task other with
    | none => rfl
    | some old =>
      have named : old.id ≠ task.id := fun same => apart (Core.id_of_task before ▸ same)
      rw [Option.map_some, if_neg named]

omit [Blake3] in
theorem answeredId_agent (id : Nat) :
    answeredId (.object [("msg_id", .ofNat id)]) = some (id % 2 ^ 64) := by
  simp [answeredId, Json.object, JsonFields.ofList, Json.get, JsonFields.get_set, Json.ofNat,
    Json.asU64]

omit [Blake3] in
theorem answeredId_human (id now : Nat) :
    answeredId (.object [("msg_id", .ofNat id), ("time_ms", .ofNat now)]) =
      some (id % 2 ^ 64) := by
  simp [answeredId, Json.object, JsonFields.ofList, Json.get, JsonFields.get_set, Json.ofNat,
    Json.asU64]

omit [Blake3] in
theorem open_of_handed (handed : post.handed core host = some (id, message)) :
    ∃ task, core.task id = some task ∧ task.isClosed = false ∧ task.nextMsg = message.msgId := by
  cases post with
  | human params =>
    cases checked : core.postable params with
    | error error => simp [Post.handed, checked] at handed
    | ok posted =>
      rcases posted with ⟨task, text, replyTo⟩
      rw [Post.handed, checked] at handed
      cases handed
      exact ⟨task, Core.postable_task checked, isOpen_of_postable checked, rfl⟩
  | agent id kind raw =>
    cases checked : core.sayable id raw with
    | error reason => simp [Post.handed, checked] at handed
    | ok posted =>
      rcases posted with ⟨task, text⟩
      rw [Post.handed, checked] at handed
      dsimp only at handed
      split at handed
      · cases handed
      · cases handed
        exact ⟨task, Core.sayable_task checked, isOpen_of_sayable checked, rfl⟩

theorem run_of_refused (refused : post.handed core host = none) :
    (post.run core host).1 = none ∧ Carries core (post.run core host).2 := by
  cases post with
  | human params =>
    cases checked : core.postable params with
    | error error =>
      rw [Post.run, Core.conversationPost, checked]
      exact ⟨rfl, carries_of_tasks rfl⟩
    | ok posted => simp [Post.handed, checked] at refused
  | agent id kind raw =>
    cases checked : core.sayable id raw with
    | error reason =>
      rw [Post.run, Core.agentPost, checked]
      exact ⟨rfl, carries_of_tasks rfl⟩
    | ok posted =>
      rcases posted with ⟨task, text⟩
      have found := Core.sayable_task checked
      have named := Core.id_of_task found
      subst named
      rw [Post.handed, checked] at refused
      rw [Post.run, Core.agentPost, checked]
      dsimp only at refused ⊢
      split
      · refine ⟨rfl, ?_⟩
        have noted := @carries_setTask _
          { task with
            window := task.window.dropWhile fun post => windowMs ≤ host.now - post.1
            counters := { task.counters with
              quotaExceeded := task.counters.quotaExceeded + 1 } } _ found rfl rfl
        intro other after here isOpen
        rw [task_of_tasks tasks_channelAudit] at here
        exact noted other after here isOpen
      · rename_i within
        split at refused
        · exact absurd ‹_› within
        · cases refused

theorem run_of_failed (handed : post.handed core host = some (id, message))
    (failed : host.messageStored = false) :
    (post.run core host).1 = none ∧ Carries core (post.run core host).2 := by
  have unkept : (!host.messageStored) = true := by simp [failed]
  cases post with
  | human params =>
    cases checked : core.postable params with
    | error error => simp [Post.handed, checked] at handed
    | ok posted =>
      rw [Post.run, Core.conversationPost, checked]
      dsimp only
      rw [if_pos unkept]
      exact ⟨rfl, carries_of_tasks rfl⟩
  | agent task kind raw =>
    cases checked : core.sayable task raw with
    | error reason => simp [Post.handed, checked] at handed
    | ok posted =>
      rcases posted with ⟨held, text⟩
      have found := Core.sayable_task checked
      have named := Core.id_of_task found
      subst named
      rw [Post.handed, checked] at handed
      rw [Post.run, Core.agentPost, checked]
      dsimp only at handed ⊢
      split
      · rename_i exceeded
        split at handed
        · cases handed
        · exact absurd exceeded ‹_›
      · exact ⟨rfl, carries_setTask found rfl rfl⟩

theorem run_of_stored (handed : post.handed core host = some (id, message))
    (stored : host.messageStored = true) :
    Took core (post.run core host).2 id message (post.run core host).1 := by
  have kept : ¬(!host.messageStored) = true := by simp [stored]
  cases post with
  | human params =>
    cases checked : core.postable params with
    | error error => simp [Post.handed, checked] at handed
    | ok posted =>
      rcases posted with ⟨task, text, replyTo⟩
      rw [Post.handed, checked] at handed
      cases handed
      have found := Core.postable_task checked
      rw [Post.run, Core.conversationPost, checked]
      dsimp only
      have answered := answeredId_human task.nextMsg host.now
      rw [if_neg kept]
      split
      · exact took_of_setTask found tasks_channelAudit rfl rfl answered
      · exact took_of_setTask found tasks_channelAudit rfl rfl answered
  | agent task kind raw =>
    cases checked : core.sayable task raw with
    | error reason => simp [Post.handed, checked] at handed
    | ok posted =>
      rcases posted with ⟨held, text⟩
      have found := Core.sayable_task checked
      have named := Core.id_of_task found
      subst named
      rw [Post.handed, checked] at handed
      rw [Post.run, Core.agentPost, checked]
      dsimp only at handed ⊢
      split
      · rename_i exceeded
        split at handed
        · cases handed
        · exact absurd exceeded ‹_›
      · split at handed
        · cases handed
        · cases handed
          have answered := answeredId_agent held.nextMsg
          dsimp only
          split
          · exact took_of_setTask found tasks_channelAudit rfl rfl answered
          · exact took_of_setTask found tasks_channelAudit rfl rfl answered

end Posting

/-! ## Along a run -/

section Runs

variable [Blake3] {read : String → Option Json} {machine : Machine} {id : String}

/-- What stands of a conversation after any run that meets the condition. -/
structure Kept (read : String → Option Json) (machine : Machine) (id : String) : Prop where
  holds : ∀ log, machine.disk id = some log →
    ∃ messages rest, Holds read (machine.acked id) log messages rest
  absent : machine.disk id = none → ∀ task, machine.core.task id = some task →
    task.isClosed = false → machine.acked id = []
  next : ∀ task, machine.core.task id = some task → task.isClosed = false →
    ∀ taken ∈ machine.acked id, taken.1 < task.nextMsg
  increasing : (machine.acked id).Pairwise fun left right => left.1 < right.1

omit [Blake3] in
theorem Kept.toSurvives (kept : Kept read machine id) : Survives read machine id where
  loaded log found := by
    rcases kept.holds log found with ⟨messages, rest, holds⟩
    exact holds.loaded
  increasing := kept.increasing

omit [Blake3] in
theorem kept_start (core : Core) : Kept read (.start core) id where
  holds log found := by cases found
  absent _ _ _ _ := rfl
  next _ _ _ _ member := by cases member
  increasing := .nil

omit [Blake3] in
theorem Kept.carry {core : Core} (kept : Kept read machine id)
    (carries : Carries machine.core core) : Kept read { machine with core } id where
  holds := kept.holds
  absent none task found isOpen := by
    rcases carries id task found isOpen with ⟨held, before, open', _⟩
    exact kept.absent none held before open'
  next task found isOpen taken member := by
    rcases carries id task found isOpen with ⟨held, before, open', same⟩
    rw [← same]
    exact kept.next held before open' taken member
  increasing := kept.increasing

omit [Blake3] in
theorem Kept.holds_open (kept : Kept read machine id) {task : Task}
    (found : machine.core.task id = some task) (isOpen : task.isClosed = false) :
    ∃ messages rest,
      Holds read (machine.acked id) ((machine.disk id).getD []) messages rest := by
  cases file : machine.disk id with
  | some log => exact kept.holds log file
  | none =>
    rw [kept.absent file task found isOpen]
    exact ⟨[], [], holds_nil⟩

omit [Blake3] in
theorem kept_restart {settings : Config} {host : Host} {metas : List Task}
    (kept : Kept read machine id) :
    Kept read (machine.restart read settings host metas) id := by
  have closed (task : Task)
      (found : (machine.restart read settings host metas).core.task id = some task)
      (isOpen : task.isClosed = false) : False := by
    have shut := Core.mem_tasks_new settings host (loadAll read metas machine.disk) task
      (List.mem_of_find?_eq_some found)
    rw [isOpen] at shut
    cases shut
  constructor
  · intro log found
    rw [Machine.restart] at found
    dsimp only at found
    split at found
    · cases found
    · exact kept.holds log found
  · intro _ task found isOpen
    exact (closed task found isOpen).elim
  · intro task found isOpen
    exact (closed task found isOpen).elim
  · exact kept.increasing

variable {by' : Post} {host : Host} {task : String} {message : Message}

omit [Blake3] in
theorem handed_stored (fault : Option Nat) :
    by'.handed machine.core (stored host fault) = by'.handed machine.core host := by
  cases by' <;> rfl

theorem kept_refused (refused : by'.handed machine.core host = none) (fault : Option Nat)
    (kept : Kept read machine id) : Kept read (machine.post by' host fault) id := by
  have carries := (run_of_refused (handed_stored fault |>.trans refused)).2
  have same : machine.post by' host fault =
      { machine with core := (by'.run machine.core (stored host fault)).2 } := by
    rw [Machine.post, refused]
  rw [same]
  exact kept.carry carries

theorem kept_failed {count : Nat} (handed : by'.handed machine.core host = some (task, message))
    (whole : machine.acked task = [] ∨ (Cbor.fromUtf8 (written message (some count))).isSome)
    (kept : Kept read machine id) : Kept read (machine.post by' host (some count)) id := by
  rcases run_of_failed (handed_stored (some count) |>.trans handed) rfl with ⟨unanswered, carries⟩
  rcases open_of_handed handed with ⟨held, found, isOpen, -⟩
  have same : machine.post by' host (some count) =
      { machine with
        core := (by'.run machine.core (stored host (some count))).2
        disk := Machine.append machine.disk task (written message (some count)) } := by
    rw [Machine.post, handed]
    dsimp only
    rw [unanswered]
    rfl
  have carried := kept.carry carries
  rw [same]
  by_cases named : id = task
  · subst named
    rcases kept.holds_open found isOpen with ⟨messages, rest, holds⟩
    refine { carried with holds := ?_, absent := ?_ }
    · intro log here
      dsimp only at here
      rw [Machine.append_self] at here
      cases here
      exact ⟨messages, _, holds.tear whole⟩
    · intro gone
      dsimp only at gone
      rw [Machine.append_self] at gone
      cases gone
  · refine { carried with holds := ?_, absent := ?_ }
    · intro log here
      dsimp only at here
      rw [Machine.append_of_ne named] at here
      exact kept.holds log here
    · intro gone
      dsimp only at gone
      rw [Machine.append_of_ne named] at gone
      exact carried.absent gone

theorem kept_stored (handed : by'.handed machine.core host = some (task, message))
    (back : ReadsBack read message) (ends : EndsLine ((machine.disk task).getD []))
    (kept : Kept read machine id) : Kept read (machine.post by' host none) id := by
  have took := run_of_stored (handed_stored none |>.trans handed) rfl
  rcases open_of_handed handed with ⟨held, found, isOpen, next⟩
  have same : machine.post by' host none =
      ⟨(by'.run machine.core (stored host none)).2,
        Machine.append machine.disk task (written message none),
        Function.update machine.acked task (machine.acked task ++ [entry message])⟩ := by
    rw [Machine.post, handed]
    dsimp only
    rw [Machine.acknowledge, took.answer]
    dsimp only
    rw [Nat.mod_eq_of_lt back.small, entry]
  rw [same]
  by_cases named : id = task
  · subst named
    rcases kept.holds_open found isOpen with ⟨messages, rest, holds⟩
    have below := kept.next held found isOpen
    constructor
    · intro log here
      dsimp only at here
      rw [Machine.append_self] at here
      cases here
      dsimp only
      rw [Function.update_self]
      exact ⟨_, _, holds.add ends back⟩
    · intro gone
      dsimp only at gone
      rw [Machine.append_self] at gone
      cases gone
    · intro after here _ taken member
      dsimp only at here member
      rw [Function.update_self] at member
      rw [took.here after here]
      rcases List.mem_append.mp member with old | new
      · have earlier := below taken old
        omega
      · rw [List.mem_singleton.mp new, entry]
        omega
    · dsimp only
      rw [Function.update_self, List.pairwise_append]
      refine ⟨kept.increasing, List.pairwise_singleton _ _, ?_⟩
      intro taken old new member
      rw [List.mem_singleton.mp member, entry, ← next]
      exact below taken old
  · constructor
    · intro log here
      dsimp only at here
      rw [Machine.append_of_ne named] at here
      dsimp only
      rw [Function.update_of_ne named]
      exact kept.holds log here
    · intro gone after here isOpen
      dsimp only at gone here ⊢
      rw [Machine.append_of_ne named] at gone
      rw [took.others id named] at here
      rw [Function.update_of_ne named]
      exact kept.absent gone after here isOpen
    · intro after here isOpen
      dsimp only at here ⊢
      rw [took.others id named] at here
      rw [Function.update_of_ne named]
      exact kept.next after here isOpen
    · dsimp only
      rw [Function.update_of_ne named]
      exact kept.increasing

def Reads (read : String → Option Json) (machine : Machine) : Event → Prop
  | .post by' host _ =>
    ∀ id message, by'.handed machine.core host = some (id, message) →
      read message.toJson.text = some message.toJson
  | .restart .. => True

theorem kept_step {event : Event} (reads : Reads read machine event)
    (meets : Meets machine event) (kept : Kept read machine id) :
    Kept read (machine.step read event) id := by
  cases event with
  | post by' host fault =>
    cases handed : by'.handed machine.core host with
    | none => exact kept_refused handed fault kept
    | some appended =>
      rcases appended with ⟨task, message⟩
      have met := meets task message handed
      cases fault with
      | none =>
        rcases open_of_handed handed with ⟨held, found, -, next⟩
        have small : message.msgId < 2 ^ 64 := next ▸ met.2 held found
        exact kept_stored handed ⟨reads task message handed, small⟩ met.1 kept
      | some count => exact kept_failed handed met kept
  | restart settings host metas => exact kept_restart kept

/-- After posts and restarts each of which meets the condition, every conversation on the
disk yields what was taken. -/
theorem acked_survive (core : Core) (events : List Event)
    (reads : Along (Machine.step read) (Reads read) (.start core) events)
    (meets : Along (Machine.step read) Meets (.start core) events) (id : String) :
    Survives read (events.foldl (Machine.step read) (.start core)) id := by
  have run : ∀ (events : List Event) (machine : Machine),
      Along (Machine.step read) (Reads read) machine events →
      Along (Machine.step read) Meets machine events → Kept read machine id →
      Kept read (events.foldl (Machine.step read) machine) id := by
    intro events
    induction events with
    | nil => exact fun _ _ _ kept => kept
    | cons event events induction =>
      intro machine reads meets kept
      exact induction _ reads.2 meets.2 (kept_step reads.1 meets.1 kept)
  exact (run events (.start core) reads meets (kept_start core)).toSurvives

end Runs

section Torn

/-- A digest to try runs with. -/
local instance : Blake3 := ⟨fun _ => ⟨List.replicate 32 0, rfl⟩⟩

def sayHi : Post := .human (.object [("task_id", .str someTask), ("text", .str "hi")])

def openCore : Core := (Core.new settled (ready 0) []).insertTask (Task.new someTask 0)

def hi : Message := ⟨1, 0, .human, "hi", none, "standard", "human_client"⟩

/-- A reader of that message's line, and of no line with anything before it. -/
def readHi (text : String) : Option Json :=
  if text = hi.toJson.text then some hi.toJson else none

theorem readHi_hi : readHi hi.toJson.text = some hi.toJson := if_pos rfl

theorem handed_sayHi : sayHi.handed openCore (ready 0) = some (someTask, hi) := by
  decide +kernel

/-- A taken message is there after `agentd` starts again. -/
theorem acked_survive_hi : Survives readHi
    ([.post sayHi (ready 0) none, .restart settled (ready 1) []].foldl (Machine.step readHi)
      (.start openCore)) someTask := by
  have begun : openCore.task someTask = some (Task.new someTask 0) := by decide +kernel
  apply acked_survive openCore
  · refine ⟨?_, trivial, trivial⟩
    intro id message handed
    cases handed_sayHi.symm.trans handed
    exact readHi_hi
  · refine ⟨?_, trivial, trivial⟩
    intro id message handed
    cases handed_sayHi.symm.trans handed
    refine ⟨rfl, fun task found => ?_⟩
    cases begun.symm.trans found
    decide

/-- The first byte of a failed append is the start of the next message's line. -/
def tornRun : List Event := [.post sayHi (ready 0) (some 1), .post sayHi (ready 0) none]

/-- A post is taken after another failed, and its message is not read back. -/
theorem torn_line_loses : Along (Machine.step readHi) (Reads readHi) (.start openCore) tornRun ∧
    ¬Survives readHi (tornRun.foldl (Machine.step readHi) (.start openCore)) someTask := by
  have again : sayHi.handed ((Machine.start openCore).post sayHi (ready 0) (some 1)).core
      (ready 0) = some (someTask, hi) := by
    decide +kernel
  have acked : (tornRun.foldl (Machine.step readHi) (.start openCore)).acked someTask =
      [(1, "hi")] := by
    decide +kernel
  have file : (tornRun.foldl (Machine.step readHi) (.start openCore)).disk someTask =
      some (Cbor.utf8 ("\x7b" ++ line hi)) := by
    decide +kernel
  have unread : loadLog readHi (Cbor.utf8 ("\x7b" ++ line hi)) = [] := by
    have oneLine : Json.OneLine ("\x7b" ++ hi.toJson.text) :=
      Json.oneLine_append (by decide) (Json.oneLine_text hi.toJson hi.tidy_toJson)
    have joined : ("\x7b" ++ line hi).toList = ("\x7b" ++ hi.toJson.text).toList ++ ['\n'] := by
      rw [line, ← String.append_assoc, String.toList_append]
      rfl
    have refused : readLine readHi ([].reverse ++ ("\x7b" ++ hi.toJson.text).toList) = none := by
      decide +kernel
    rw [loadLog, Cbor.fromUtf8_utf8]
    dsimp only
    rw [joined, Policyd.lines_append oneLine.1 oneLine.2 List.not_mem_nil, List.filterMap_cons,
      refused]
    rfl
  refine ⟨⟨?_, ?_, trivial⟩, fun survives => ?_⟩
  · intro id message handed
    cases handed_sayHi.symm.trans handed
    exact readHi_hi
  · intro id message handed
    cases again.symm.trans handed
    exact readHi_hi
  · have loaded := survives.loaded _ file
    rw [acked, unread] at loaded
    cases loaded

end Torn

end Transcript

end EclipseOS.Agentd
