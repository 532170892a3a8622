import EclipseOS.Foundation.FirstMatch
import EclipseOS.Policyd.Tasks.Bodies
import EclipseOS.PolicyEval.Link

/-! # The task store

Every mutation is appended to the journal before the memory changes. The audit
store is taken here for the records it has written, oldest first; what the disk
does with each append and each sync is given in advance. -/

namespace EclipseOS.Policyd

open Foundation PolicyEval Cbor

/-! ## The journal -/

/-- What becomes of one append. A failed one may have written its record: the
sync or the rotation after it is what failed. -/
inductive Fate where
  | written
  | rotated (sealedName : String) (ts mono : UInt64)
  | failed (kept : Bool)
  deriving DecidableEq

structure Attempt where
  ts : UInt64
  mono : UInt64
  fate : Fate
  deriving DecidableEq

/-- The records written, and what the next appends and syncs will meet. Past the
end of a list all goes well. -/
structure Journal where
  records : List Record
  attempts : List Attempt
  syncs : List Bool
  deriving DecidableEq

namespace Journal

def nextSeq (journal : Journal) : UInt64 := UInt64.ofNat journal.records.length

def head (journal : Journal) : Digest := (journal.records.getLast?.map Record.hash).getD genesis

section Append

variable [Blake3]

/-- The record with the fields the store fills in. -/
def fill (journal : Journal) (record : Record) (ts mono : UInt64) : Record :=
  let placed := { record with seq := journal.nextSeq, ts, mono, prevHash := journal.head }
  { placed with hash := placed.computeHash }

def push (journal : Journal) (record : Record) : Journal :=
  { journal with records := journal.records ++ [record] }

def append (journal : Journal) (record : Record) : Except StoreError Record × Journal :=
  let attempt := journal.attempts.headD ⟨0, 0, .written⟩
  let journal := { journal with attempts := journal.attempts.tail }
  let record := journal.fill record attempt.ts attempt.mono
  if maxFrame < record.encode.length then
    (.error .tooLarge, journal)
  else
    match attempt.fate with
    | .written => (.ok record, journal.push record)
    | .rotated sealedName ts mono =>
      let journal := journal.push record
      (.ok record, journal.push (journal.fill (.anchor sealedName journal.head) ts mono))
    | .failed kept => (.error .io, if kept then journal.push record else journal)

end Append

def sync (journal : Journal) : Except StoreError Unit × Journal :=
  (if journal.syncs.headD true then .ok () else .error .io,
    { journal with syncs := journal.syncs.tail })

end Journal

/-! ## The store -/

/-- Why a task or grant operation was refused. -/
inductive TaskError where
  | alreadyLive (existing : Ulid)
  | unknownTask (id : Ulid)
  | illegalTransition («from» : TaskState) (event : TaskEvent)
  | expiryBeyondDeadline
  | taskClosed
  | unattendedTooLong
  | badScope
  | store (error : StoreError)
  deriving DecidableEq

def recentLimit : Nat := 1024

structure TaskStore [Ed25519] where
  audit : Journal
  tasks : List Task
  grants : List Issued
  signing : Ed25519.SigningKey
  recent : List (String × TailRecord)
  /-- Each task's statement hash, which outlives the statement. -/
  hashes : Ulid → Option Digest

/-- A mutation. What it did before it failed stays done. -/
abbrev Op [Ed25519] (α : Type) := EStateM TaskError TaskStore α

abbrev Entropy := FixedBytes 10

section Store

variable [Ed25519]

namespace TaskStore

def task (store : TaskStore) (id : Ulid) : Option Task := store.tasks.find? (·.id = id)

/-- The principal's one live task, if it has one. -/
def liveTask (store : TaskStore) (principal : String) : Option Task :=
  store.tasks.find? fun task => task.principal = principal ∧ task.state.isLive

def statementHash (store : TaskStore) (id : Ulid) : Option Digest := store.hashes id

/-- The grant exists here and has not been revoked. -/
def isLiveGrant (store : TaskStore) (id : Ulid) : Bool :=
  store.grants.any fun issued => issued.grant.id = id ∧ !issued.revoked

/-- The last `n` emissions naming a principal, newest first. -/
def tail (store : TaskStore) (principal : String) (n : Nat) : List TailRecord :=
  ((store.recent.reverse.filter (·.1 = principal)).take n).map Prod.snd

def deferCheck (store : TaskStore) (principal : String) : DeferAnswer :=
  match store.liveTask principal with
  | some task => if task.state.acceptsActingRequests then .prompt else .deny
  | none => .deny

end TaskStore

def onAudit {α : Type} (call : Journal → Except StoreError α × Journal) : Op α := fun store =>
  match call store.audit with
  | (.ok value, audit) => .ok value { store with audit }
  | (.error error, audit) => .error (.store error) { store with audit }

def sync : Op Unit := onAudit Journal.sync

section Operations

variable [Blake3]

def append (record : Record) : Op Record := onAudit fun audit => audit.append record

/-- Appends a record and forces it to durable storage. -/
def commit (record : Record) : Op Unit := do
  let _ ← append record
  sync

def taskRecord (task : Task) (op : String) (hash : Digest) : Record :=
  .about .task task.principal (some task.id) (taskBody task op hash)

def grantRecord (grant : Grant) (cose : Bytes) (reason : GrantReason) : Record :=
  { Record.about .grant grant.principal (some grant.taskId)
      (grantBody cose grant.issuer reason) with grantId := some grant.id }

def revokeRecord (principal : String) (id : Ulid) (ids : List Ulid) : Record :=
  .about .revoke principal (some id) (revokeBody ids)

def journal (task : Task) (op : String) : Op Unit := do
  let store ← get
  let hash ← match store.hashes task.id with
    | some hash => pure hash
    | none =>
      let hash := task.statementHash
      set { store with hashes := Function.update store.hashes task.id (some hash) }
      pure hash
  commit (taskRecord task op hash)

/-- Revokes every grant naming a task in a single journalled operation. -/
def revokeForTask (id : Ulid) : Op Unit := do
  let store ← get
  let ids := (store.grants.filter fun issued =>
    issued.grant.taskId = id ∧ !issued.revoked).map (·.grant.id)
  if ids ≠ [] then
    let principal := ((store.task id).map (·.principal)).getD ""
    commit (revokeRecord principal id ids)
    modify fun store => { store with
      grants := store.grants.map fun issued =>
        if issued.grant.id ∈ ids then { issued with revoked := true } else issued }

/-- The task a call opens. A resumed task's chain root, irreversible windows and
denied streak carry over. -/
def openedTask (store : TaskStore) (id : Ulid) (principal : String) (origin : Origin)
    (originRef statement : String) (deadlineMs nowMs : UInt64) (resumes : Option Ulid) : Task :=
  let task : Task := ⟨id, principal, origin, originRef, statement, none, none, 0, .active, nowMs,
    deadlineMs, "", .default⟩
  match resumes.bind store.task with
  | some old =>
    let root := if old.chainRoot = "" then old.id.toText else old.chainRoot
    { task with
      chainRoot := "collapsed:" ++ root
      counters := { task.counters with
        irreversible := old.counters.irreversible
        irreversibleByClass := old.counters.irreversibleByClass
        deniedIrreversibleStreak := old.counters.deniedIrreversibleStreak } }
  | none => task

def openTaskFrom (entropy : Entropy) (principal : String) (origin : Origin)
    (originRef statement : String) (deadlineMs nowMs : UInt64) (resumes : Option Ulid) :
    Op Ulid := do
  let store ← get
  match store.liveTask principal with
  | some task => throw (.alreadyLive task.id)
  | none =>
    let id := Ulid.fromParts nowMs entropy
    let task := openedTask store id principal origin originRef statement deadlineMs nowMs resumes
    journal task "open"
    modify fun store => { store with tasks := store.tasks ++ [task] }
    return id

def openTask (entropy : Entropy) (principal : String) (origin : Origin)
    (originRef statement : String) (deadlineMs nowMs : UInt64) : Op Ulid :=
  openTaskFrom entropy principal origin originRef statement deadlineMs nowMs none

/-- Applies a state-machine event. Nothing in memory changes until the record is
durable. -/
def apply (id : Ulid) (event : TaskEvent) : Op TaskState := do
  let store ← get
  match store.task id with
  | none => throw (.unknownTask id)
  | some task =>
    match task.state.transition event with
    | .error illegal => throw (.illegalTransition illegal.from illegal.event)
    | .ok next => do
      journal { task with state := next } (if next.isLive then "state" else "close")
      if next.isLive = false then
        revokeForTask id
      modify fun store => { store with
        tasks := modifyFirst (·.id = id) (fun task => { task with state := next }) store.tasks }
      return next

def updateCounters (id : Ulid) (change : Counters → Counters) : Op Unit := do
  let store ← get
  match store.task id with
  | none => throw (.unknownTask id)
  | some task =>
    let counters := change task.counters
    journal { task with counters } "counters"
    modify fun store => { store with
      tasks := modifyFirst (·.id = id) (fun task => { task with counters }) store.tasks }

/-- Signs a grant: the COSE_Sign1 envelope handed to the requester. -/
def signed (signing : Ed25519.SigningKey) (grant : Grant) : Bytes :=
  let header := protectedHeader (Ed25519.verifyingKey signing)
  coseSign1 header grant.encode (Ed25519.sign signing (sigStructure header grant.encode))

/-- Mints and signs a grant against a live task. -/
def issueGrant (entropy : Entropy) (grant : Grant) (reason : GrantReason) (nowMs : UInt64) :
    Op Bytes := do
  let store ← get
  match store.task grant.taskId with
  | none => throw (.unknownTask grant.taskId)
  | some task =>
    if task.state.acceptsActingRequests = false then
      throw .taskClosed
    else if task.deadlineMs < grant.expiresMs then
      throw .expiryBeyondDeadline
    else if grant.unattended ∧ unattendedMaxMs.toNat < grant.expiresMs.toNat - nowMs.toNat then
      throw .unattendedTooLong
    else
      let grant := { grant with
        issuedMs := nowMs
        id := Ulid.fromParts nowMs entropy
        principal := task.principal }
      let cose := signed store.signing grant
      commit (grantRecord grant cose reason)
      modify fun store => { store with grants := store.grants ++ [⟨grant, cose, false⟩] }
      return cose

def record (emission : Emission) : Op Unit := do
  let written ← append (.fromEmission emission)
  modify fun store =>
    let recent := if store.recent.length = recentLimit then store.recent.tail else store.recent
    { store with
      recent := recent ++ [(written.principal, ⟨written.kind.asStr, written.reqId, written.ts⟩)] }

/-- The human revoked or terminated a principal. -/
def cancelPrincipal (principal : String) : Op Bool := do
  let store ← get
  match store.liveTask principal with
  | none => return false
  | some task => do
    let _ ← apply task.id .cancel
    return true

end Operations

end Store

/-! ## Scopes on the link -/

/-- `str::lines`. -/
def lines : List Char → List Char → List (List Char)
  | [], [] => []
  | line, [] => [line.reverse]
  | line, '\n' :: text =>
    (match line with
      | '\r' :: line => line.reverse
      | line => line.reverse) :: lines [] text
  | line, char :: text => lines (char :: line) text

/-- Unicode `White_Space`. -/
def isWhitespace (char : Char) : Bool :=
  let n := char.toNat
  (9 ≤ n ∧ n ≤ 13) ∨ n = 0x20 ∨ n = 0x85 ∨ n = 0xa0 ∨ n = 0x1680 ∨ (0x2000 ≤ n ∧ n ≤ 0x200a) ∨
    n = 0x2028 ∨ n = 0x2029 ∨ n = 0x202f ∨ n = 0x205f ∨ n = 0x3000

/-- `str::split_whitespace`. -/
def splitWhitespace (line : List Char) : List String :=
  ((line.splitOnP isWhitespace).filter (· ≠ [])).map String.ofList

section Scopes

variable [RegexEngine]

/-- One capability line: a name and at least one scope, every scope valid. -/
def capabilityLine (line : List Char) : Option Capability :=
  match splitWhitespace line with
  | [] => none
  | name :: scopes =>
    if name.toList.all (fun char => char.isLower || char = '.' || char = '_') = false then
      none
    else if scopes = [] ∨ scopes.any (fun scope => (Scope.parse scope).isOk = false) then
      none
    else
      some ⟨name, scopes, none⟩

/-- Parses a grant scope as the link carries it: one capability a line. -/
def capabilities (scope : String) : Option (List Capability) := do
  let found ← (lines [] scope.toList).mapM capabilityLine
  if found = [] then none else some found

variable [Ed25519] [Blake3]

/-- The grant a human's word or answer asks for. -/
def askedGrant (task : Ulid) (capabilities : List Capability) (expiresMs nowMs : UInt64)
    (unattended : Bool) : Grant :=
  ⟨zeroBytes 16, "", nowMs, expiresMs, "policyd", task, capabilities, .default, unattended⟩

/-- Opens a task on the human's word and issues its first grant. -/
def openForHuman (taskEntropy grantEntropy : Entropy) (principal statement : String)
    (deadlineMs : UInt64) (scope originRef : String) (resumes : Option Ulid) (nowMs : UInt64) :
    Op (Ulid × Bytes) := do
  let found ←
    if scope.toList.all isWhitespace then
      pure []
    else
      match capabilities scope with
      | some found => pure found
      | none => throw .badScope
  if deadlineMs ≤ nowMs then
    throw .expiryBeyondDeadline
  else
    let task ← openTaskFrom taskEntropy principal .human originRef statement deadlineMs nowMs resumes
    tryCatch
      (do
        let cose ← issueGrant grantEntropy (askedGrant task found deadlineMs nowMs false) .manifest
          nowMs
        return (task, cose))
      fun error => do
        let _ ← apply task .fault
        throw error

/-- Mints exactly the scope that was on screen, on the principal's live task. -/
def mintFromPrompt (entropy : Entropy) (principal scope : String) (unattended : Bool)
    (nowMs : UInt64) : Op Bytes := do
  match capabilities scope with
  | none => throw .badScope
  | some found =>
    let store ← get
    match store.liveTask principal with
    | none => throw .taskClosed
    | some task =>
      let hour := UInt64.ofNat (min (nowMs.toNat + unattendedMaxMs.toNat) (2 ^ 64 - 1))
      let expiresMs := if unattended then min task.deadlineMs hour else task.deadlineMs
      issueGrant entropy (askedGrant task.id found expiresMs nowMs unattended) .prompt nowMs

end Scopes

/-! ## Replay -/

structure Replay where
  tasks : List Task
  hashes : Ulid → Option Digest
  issued : List Issued
  revoked : List Ulid

namespace Replay

def empty : Replay := ⟨[], fun _ => none, [], []⟩

def step (replay : Replay) (record : Record) : Except Cbor.Error Replay :=
  match record.kind with
  | .task =>
    match record.taskId with
    | none => .error .type
    | some id => do
      let (task, hash) ← readTaskBody id record.principal record.body
      return { replay with
        hashes := Function.update replay.hashes id (some hash)
        tasks := upsert (·.id = id) task replay.tasks }
  | .grant => do
    return { replay with issued := replay.issued ++ [← replayIssued record.body] }
  | .revoke => do
    return { replay with revoked := replay.revoked ++ (← replayRevoked record.body) }
  | _ => .ok replay

/-- A closed task's grants are revoked whether or not the record of it was written. -/
def isRevoked (replay : Replay) (grant : Grant) : Bool :=
  replay.tasks.any (fun task => task.id = grant.taskId ∧ !task.state.isLive) ||
    grant.id ∈ replay.revoked

/-- The grants once the whole journal is read. -/
def grants (replay : Replay) : List Issued :=
  replay.issued.map fun issued =>
    if replay.isRevoked issued.grant then { issued with revoked := true } else issued

end Replay

def replay (records : List Record) : Except Cbor.Error Replay :=
  records.foldlM Replay.step Replay.empty

section Open

variable [Ed25519]

def TaskStore.«open» (audit : Journal) (signing : Ed25519.SigningKey) :
    Except TaskError TaskStore :=
  match replay audit.records with
  | .error error => .error (.store (.cbor error))
  | .ok found => .ok ⟨audit, found.tasks, found.grants, signing, [], found.hashes⟩

end Open

end EclipseOS.Policyd
