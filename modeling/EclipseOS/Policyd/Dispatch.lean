import EclipseOS.Policyd.Manifest

/-! # Dispatch

Installing a package, previewing a draft, and creating the task the human
committed. A preview stores the capability lines it displayed, is single use, and
names the table version and the install record it was computed against. -/

namespace EclipseOS.Policyd

open Foundation PolicyEval Cbor

def maxDeadlineMs : UInt64 := 24 * 3600000

def maxStatement : Nat := 1000

def maxPreviews : Nat := 64

inductive To where
  | asker
  | agentd
  | all
  deriving DecidableEq

abbrev Out := List (To × FromPolicyd)

/-- An approved install: what the human allowed this version to be granted. -/
structure Install where
  id : String
  version : String
  dir : Path
  /-- BLAKE3 of `manifest.kdl` as reviewed. -/
  manifestHash : Digest
  /-- The reviewed capability lines. -/
  lines : List String
  /-- Bumped on every install of this package: a preview names it. -/
  seq : Nat
  deriving DecidableEq

structure Review where
  req : UInt64
  manifest : Manifest
  dir : Path
  hash : Digest
  expiresMs : UInt64
  deriving DecidableEq

structure Preview where
  slot : UInt64
  package : String
  version : String
  statement : String
  deadlineMs : UInt64
  lines : List String
  continuation : String
  resumes : String
  /-- The account the task runs under, or empty. -/
  account : String
  tableVersion : UInt64
  installSeq : Nat
  deriving DecidableEq

/-! ## Maps -/

abbrev Entries (α β : Type) := List (α × β)

namespace Entries

variable {α β : Type} [DecidableEq α]

def get (entries : Entries α β) (key : α) : Option β :=
  (entries.find? (·.1 = key)).map Prod.snd

def remove (entries : Entries α β) (key : α) : Entries α β := entries.filter (·.1 ≠ key)

def insert (entries : Entries α β) (key : α) (value : β) : Entries α β :=
  (key, value) :: entries.remove key

end Entries

structure Dispatch where
  roots : List (String × PackageOrigin)
  installs : Entries String Install
  reviews : Entries UInt64 Review
  previews : Entries UInt64 Preview
  /-- Task ids a human was seen to pause, this run. -/
  paused : List String
  next : UInt64

namespace Dispatch

/-- Opened on the install records of the state directory. -/
def «open» (roots : List (String × PackageOrigin)) (records : List Install) : Dispatch where
  roots := roots
  installs := records.foldl (fun installs install => Entries.insert installs install.id install) []
  reviews := []
  previews := []
  paused := []
  next := 1

def id (dispatch : Dispatch) (drawn : UInt64) : UInt64 × Dispatch :=
  (drawn ^^^ (dispatch.next + 1), { dispatch with next := dispatch.next + 1 })

end Dispatch

def refused (req : UInt64) (why : String) : Out := [(.asker, .refused req why)]

/-! ## What is shown -/

def notable : List (String × String) :=
  [("capture", "screen.capture"), ("clipboard", "clipboard."),
    ("shell", "launch.outside_sandbox"), ("secrets", "secret.")]

def reviewDisplay (manifest : Manifest) (previous : Option Install) : Bytes :=
  let before := (previous.map (·.lines)).getD []
  let now := manifest.capabilities.map (·.line)
  let absent := (notable.filter fun (_, start) =>
    !manifest.capabilities.any fun requested => start.toList.isPrefixOf requested.name.toList).map
      Prod.fst
  let egress := manifest.sandbox.any (·.1 = "net.egress")
  let warnings :=
    if egress ∧ manifest.capabilities.any (·.name = "secret.expose") then
      ["secret_expose_with_egress"]
    else []
  let inference := manifest.inference.toList.map fun inference =>
    s!"inference {inference.backend} {inference.model}"
  MapBuilder.new
    |>.insert "id" (Writer.text manifest.id)
    |>.insert "name" (Writer.text manifest.name)
    |>.insert "publisher" (Writer.text manifest.publisher)
    |>.insert "version" (Writer.text manifest.version)
    |>.insertOpt "previous" (previous.map fun install => Writer.text install.version)
    |>.insert "caps" (arrayOf (fun requested : Requested => MapBuilder.new
        |>.insert "line" (Writer.text requested.line)
        |>.insert "because" (Writer.text requested.because)
        |>.insert "added" (Writer.bool (requested.line ∉ before))
        |>.finish) manifest.capabilities)
    |>.insert "removed" (arrayOf Writer.text (before.filter (· ∉ now)))
    |>.insert "absent" (arrayOf Writer.text absent)
    |>.insert "warnings" (arrayOf Writer.text warnings)
    |>.insert "sandbox"
      (arrayOf Writer.text (manifest.sandbox.map (fun (kind, value) => s!"{kind} {value}") ++ inference))
    |>.finish

def slotDisplay (manifest : Manifest) (statement : String) (deadlineMs : UInt64)
    (lines : List String) (narrowed : Bool) (continuation resumes account : String) : Bytes :=
  MapBuilder.new
    |>.insert "package_name" (Writer.text manifest.name)
    |>.insert "package" (Writer.text manifest.id)
    |>.insert "publisher" (Writer.text manifest.publisher)
    |>.insert "statement" (Writer.text statement)
    |>.insert "deadline_ms" (Writer.u64 deadlineMs)
    |>.insert "could" (arrayOf Writer.text lines)
    |>.insert "narrowed" (Writer.bool narrowed)
    |>.insert "continuation" (Writer.text continuation)
    |>.insert "resumes" (Writer.text resumes)
    |>.insert "account" (Writer.text account)
    |>.insert "untrusted_predecessor" (Writer.bool (continuation ≠ "" ∨ resumes ≠ ""))
    |>.finish

/-! ## Narrowing -/

/-- `left` more lines, each one of the install's and none of them twice. -/
def narrowItems (install : List String) : (left : Nat) → List String →
    Read Cbor.Error (List String)
  | 0, kept => return kept
  | left + 1, kept => do
    let line ← text
    if line ∉ install ∨ line ∈ kept then
      fail .type
    else
      narrowItems install left (kept ++ [line])

/-- No bytes for the whole of an install, or an array of its lines. -/
def narrow (install : List String) (narrowing : Bytes) : Option (List String) :=
  if narrowing = [] then
    some install
  else
    let read : Read Cbor.Error (List String) := do
      let n ← arrayLen
      if 256 < n then fail .type else narrowItems install n []
    (decodeAll read narrowing).toOption

/-! ## The daemon -/

/-- What an answer depends on besides the state: the facts at receipt, the files as
they are, what is drawn at random, and whether an install record can be written. -/
structure Given where
  nowMs : UInt64
  /-- 0 before the first compile succeeds. -/
  tableVersion : UInt64
  agentdLive : Bool
  files : Files
  drawn : UInt64
  suffix : FixedBytes 3
  taskEntropy : Entropy
  grantEntropy : Entropy
  recordWritten : Bool

section Serve

variable [Ed25519]

structure Daemon where
  dispatch : Dispatch
  store : TaskStore

/-- An answer, or a journal failure that must end the daemon. -/
abbrev Served (α : Type) := EStateM TaskError Daemon α

def onStore {α : Type} (op : Op α) : Served α := fun state =>
  match op state.store with
  | .ok value store => .ok value { state with store }
  | .error error store => .error error { state with store }

def onDispatch {α : Type} (change : Dispatch → α × Dispatch) : Served α := fun state =>
  let (value, dispatch) := change state.dispatch
  .ok value { state with dispatch }

def setDispatch (change : Dispatch → Dispatch) : Served Unit :=
  onDispatch fun dispatch => ((), change dispatch)

/-- A policy refusal is an answer; a journal failure is not. -/
def orRefused {α : Type} (op : Op α) : Op (Except TaskError α) := fun store =>
  match op store with
  | .ok value store => .ok (.ok value) store
  | .error (.store error) store => .error (.store error) store
  | .error error store => .ok (.error error) store

/-! ### Install -/

section Install

variable [RegexEngine] [KdlParser] [Blake3]

end Install

/-! ### Preview and create -/

section Create

variable [RegexEngine] [KdlParser] [Blake3]

/-- Installed means reviewed and still present as reviewed. -/
def currentManifest (roots : List (String × PackageOrigin)) (files : Files) (install : Install) :
    Except String Manifest :=
  match files.manifest install.dir with
  | none => .error "not_installed"
  | some bytes =>
    if Blake3.hash bytes ≠ install.manifestHash then
      .error "package_changed"
    else
      match originOf files install.dir roots with
      | none => .error "not_installed"
      | some origin => (load files install.dir origin).mapError Refusal.text

/-- A resumed session's task is closed, of this package, and its statement is the
original verbatim. -/
def resumeOk (store : TaskStore) (manifest : Manifest) (resumes statement : String) :
    Except String Unit :=
  if manifest.isResumable = false then
    .error "not_resumable"
  else
    match store.tasks.find? (·.id.toText = resumes) with
    | none => .error "resume_unknown"
    | some task =>
      if task.state.isLive then
        .error "resume_not_closed"
      else if ¬("agent:" ++ manifest.id ++ "-").toList <+: task.principal.toList then
        .error "resume_other_package"
      else if store.statementHash task.id ≠ some (Blake3.hash (utf8 statement)) then
        .error "resume_statement_changed"
      else
        .ok ()

/-- What a draft comes to: the install it names, its manifest, its deadline and the
lines it may be granted. -/
structure Draft where
  install : Install
  manifest : Manifest
  deadlineMs : UInt64
  lines : List String

def draft (dispatch : Dispatch) (store : TaskStore) (given : Given) (package statement : String)
    (deadlineMs : UInt64) (narrowing : Bytes) (continuation resumes account : String) :
    Except String Draft := do
  if given.tableVersion = 0 then
    throw "policy_unavailable"
  if accountOk account = false then
    throw "bad_account"
  if given.agentdLive = false then
    throw "agentd_unavailable"
  if statement.length = 0 ∨ maxStatement < statement.length then
    throw "statement_length"
  let install ← match dispatch.installs.get package with
    | some install => .ok install
    | none => .error "not_installed"
  let manifest ← currentManifest dispatch.roots given.files install
  let deadline := if deadlineMs = 0 then manifest.defaultDeadlineMs else deadlineMs
  if maxDeadlineMs < deadline then
    throw "deadline_too_long"
  let lines ← match narrow install.lines narrowing with
    | some lines => .ok lines
    | none => .error "narrowing_widens"
  if continuation ≠ "" ∧ resumes ≠ "" then
    throw "continuation_and_resumes"
  if resumes ≠ "" then
    resumeOk store manifest resumes statement
  if continuation ≠ "" ∧ ¬store.tasks.any fun task =>
      task.id.toText = continuation ∧ !task.state.isLive then
    throw "continuation_not_closed"
  return ⟨install, manifest, deadline, lines⟩

/-- One live preview a slot: a new draft retires the old one. -/
def keptPreviews (previews : Entries UInt64 Preview) (slot : UInt64) : Entries UInt64 Preview :=
  (if maxPreviews ≤ previews.length then [] else previews).filter (·.2.slot ≠ slot)

def preview (store : TaskStore) (given : Given) (req slot : UInt64) (package statement : String)
    (deadlineMs : UInt64) (narrowing : Bytes) (continuation resumes account : String)
    (dispatch : Dispatch) : Out × Dispatch :=
  match draft dispatch store given package statement deadlineMs narrowing continuation resumes
      account with
  | .error why => (refused req why, dispatch)
  | .ok draft =>
    let display := slotDisplay draft.manifest statement draft.deadlineMs draft.lines
      (1 < narrowing.length) continuation resumes account
    let dispatch := { dispatch with previews := keptPreviews dispatch.previews slot }
    let (preview, dispatch) := dispatch.id given.drawn
    ([(.asker, .preview req preview display)],
      { dispatch with
        previews := dispatch.previews.insert preview
          ⟨slot, draft.manifest.id, draft.manifest.version, statement, draft.deadlineMs,
            draft.lines, continuation, resumes, account, given.tableVersion,
            draft.install.seq⟩ })

end Create

/-! ### Task state -/

section State

variable [Blake3]

def find (store : TaskStore) (task : String) : Option Task :=
  store.tasks.find? (·.id.toText = task)

/-- Applies an event and says so to everyone: the state, and the revocation when it
closed the task. -/
def transition (id : Ulid) (principal : String) (event : TaskEvent) (why : String) : Op Out := do
  match ← orRefused (apply id event) with
  | .error _ => return []
  | .ok (.closed reason) =>
    return [(.all, .taskState id.toText "closed" reason.asStr), (.all, .revoked principal)]
  | .ok next => return [(.all, .taskState id.toText next.asStr why)]

def pause (req : UInt64) (task : String) : Served Out := do
  match find (← get).store task with
  | some found =>
    if found.state ≠ .active then
      return refused req "not_active"
    else
      let out ← onStore (transition found.id found.principal .pause "human")
      if out = [] then
        return refused req "not_active"
      else
        setDispatch fun dispatch => { dispatch with paused := task :: dispatch.paused }
        return (.asker, .done req) :: out
  | none => return refused req "not_active"

def unpaused (task : String) (dispatch : Dispatch) : Dispatch :=
  { dispatch with paused := dispatch.paused.filter (· ≠ task) }

def unpause (req : UInt64) (task : String) : Served Out := do
  let state ← get
  match find state.store task with
  | some found =>
    if found.state ≠ .paused then
      return refused req "not_paused"
    else if task ∉ state.dispatch.paused then
      return refused req "panel_only"
    else
      let out ← onStore (transition found.id found.principal .resume "human")
      if out = [] then
        return refused req "not_paused"
      else
        setDispatch (unpaused task)
        return (.asker, .done req) :: out
  | none => return refused req "not_paused"

def cancel (req : UInt64) (task : String) (mode : CancelMode) : Served Out := do
  match find (← get).store task with
  | none => return refused req "not_found"
  | some found =>
    if found.state.isLive = false then
      return refused req "closed"
    else
      let event := if mode = .drain ∧ found.state ≠ .draining then .drain else .cancel
      let out ← onStore (transition found.id found.principal event "human")
      if out = [] then
        return refused req "illegal_transition"
      else
        setDispatch (unpaused task)
        return (.asker, .done req) :: out

def exited (req : UInt64) (task how : String) : Served Out := do
  match find (← get).store task with
  | none => return refused req "not_found"
  | some found =>
    if found.state.isLive = false then
      return [(.asker, .done req)]
    else
      let out ← onStore <|
        if how = "completed" then do
          let drained ←
            if found.state ≠ .draining then
              transition found.id found.principal .drain "exited"
            else
              pure []
          return drained ++ (← transition found.id found.principal .drained "exited")
        else
          transition found.id found.principal .fault "exited"
      setDispatch (unpaused task)
      return (.asker, .done req) :: out

end State

/-! ### Messages -/

section Answer

variable [RegexEngine] [KdlParser] [Blake3]

/-- The human revoked or terminated a principal. -/
def revoke (principal : String) : Op Out := do
  let task := ((← get).liveTask principal).map (·.id.toText)
  let _ ← cancelPrincipal principal
  return (.asker, .revoked principal) :: task.toList.map fun task =>
    (.agentd, .taskState task "closed" "cancelled")

end Answer

end Serve

end EclipseOS.Policyd
