import EclipseOS.Brokerd.Store
import EclipseOS.PolicyEval.Audit

/-! # The broker

Who may ask for what, the owner's actions, and the release paths. Every release path
runs its own checks, then the shared ones, then reads the value, then has the release
journalled. -/

namespace EclipseOS.Brokerd

open Foundation PolicyEval Cbor

/-! ## Who may ask -/

inductive Peer where
  | compositor
  | proxy
  | agentd
  | owner
  deriving DecidableEq

inductive Op where
  | status
  | beginUnlock
  | answerUnlock
  | init
  | lock
  | add
  | rotate
  | revoke
  | list
  | substitute
  | fieldFill
  | materialize
  | totp
  deriving DecidableEq

def allowed (peer : Peer) : Op → Bool
  | .status => true
  | .beginUnlock | .answerUnlock | .init | .lock | .add | .rotate | .revoke | .list =>
    peer = .compositor || peer = .owner
  | .substitute => peer = .proxy
  | .fieldFill => peer = .compositor
  | .materialize | .totp => peer = .agentd

inductive Status where
  | noCapability
  | outOfScope
  | rateLimited
  | staleGeneration
  | invalidArgument
  | brokerLocked
  | secretRotated
  | internal
  | badCredential
  deriving DecidableEq

def Status.outcome : Status → String
  | noCapability => "no_capability"
  | outOfScope => "out_of_scope"
  | rateLimited => "rate_limited"
  | staleGeneration => "stale_generation"
  | invalidArgument => "invalid_argument"
  | brokerLocked => "broker_locked"
  | secretRotated => "secret_rotated"
  | internal | badCredential => "failed"

/-! ## Audit records -/

/-- What is journalled about a secret. No field can carry a value. -/
structure SecretRecord where
  secretId : Ulid
  rotationCounter : UInt64
  mode : String
  destination : String
  principal : String
  grantId : Option Ulid
  outcome : String
  length : Option UInt64
  deriving DecidableEq

namespace SecretRecord

def body (record : SecretRecord) : Bytes :=
  MapBuilder.new
    |>.insert "destination" (Writer.text record.destination)
    |>.insertOpt "grant_id" (record.grantId.map fun grant => Writer.bytes grant.val)
    |>.insertOpt "length" (record.length.map Writer.u64)
    |>.insert "mode" (Writer.text record.mode)
    |>.insert "outcome" (Writer.text record.outcome)
    |>.insert "principal" (Writer.text record.principal)
    |>.insert "rotation_counter" (Writer.u64 record.rotationCounter)
    |>.insert "secret_id" (Writer.bytes record.secretId.val)
    |>.finish

def emission (record : SecretRecord) : Emission where
  kind := .secret
  principal := record.principal
  grantId := record.grantId
  taskId := none
  chainId := none
  reqId := none
  serial := none
  body := record.body

def ofOwner (secretId : Ulid) (rotationCounter : UInt64) (mode outcome : String) :
    SecretRecord where
  secretId := secretId
  rotationCounter := rotationCounter
  mode := mode
  destination := "-"
  principal := "human"
  grantId := none
  outcome := outcome
  length := none

end SecretRecord

/-- Whether the sink takes an emission, at the time it is handed over. -/
abbrev AuditSink := Emission → Bool

/-- A destination as it may appear in an audit record: no query, no fragment, no
userinfo, bounded. -/
def auditDest (destination : String) : String :=
  if '@' ∈ destination.toList then
    "<redacted>"
  else
    let kept := destination.toList.takeWhile fun char => char ≠ '?' ∧ char ≠ '#'
    String.ofList (kept.take 256)

/-! ## One-time codes -/

/-- HMAC-SHA1. -/
class Hmac where
  sha1 (key message : Bytes) : FixedBytes 20

/-- `totp::STEP`. -/
def totpStep : Nat := 30

/-- `totp::DIGITS`. -/
def totpDigits : Nat := 6

/-- `totp::WINDOW_S`. -/
def issueWindow : Nat := 300

def maxInWindow : Nat := 3

/-- `totp::code`. -/
def code [Hmac] (seed : Bytes) (unix : UInt64) (digits : Nat) : String :=
  let hash := (Hmac.sha1 seed (bigEndian 8 (unix.toNat / totpStep))).val
  let offset := (hash.getD (hash.length - 1) 0 &&& 0x0f).toNat
  let binary := ofBigEndian [hash.getD offset 0 &&& 0x7f, hash.getD (offset + 1) 0,
    hash.getD (offset + 2) 0, hash.getD (offset + 3) 0]
  let spelled := Nat.toDigits 10 (binary % 10 ^ digits)
  String.ofList (List.replicate (digits - spelled.length) '0' ++ spelled)

/-- Seconds until the code issued at `unix` stops being the current one. -/
def lifeLeft (unix : UInt64) : Nat := totpStep - unix.toNat % totpStep

/-- Issuance times for one secret, oldest first. -/
structure IssueLog where
  times : List UInt64
  deriving DecidableEq

/-- Records an issuance at `now` if the rate limit allows it. -/
def IssueLog.tryIssue (log : IssueLog) (now : UInt64) : Bool × IssueLog :=
  let times := log.times.dropWhile fun issued => issueWindow ≤ now.toNat - issued.toNat
  if maxInWindow ≤ times.length then (false, ⟨times⟩) else (true, ⟨times ++ [now]⟩)

/-- The issuance log of every secret that has one. -/
abbrev IssueLogs := Finmap fun _ : Ulid => IssueLog

/-! ## Requests -/

inductive NodeRole where
  | password
  | textField
  | other
  deriving DecidableEq

/-- `proxy_header` substitution. -/
structure SubstituteReq where
  principal : String
  grantId : Option Ulid
  name : String
  host : String
  port : UInt16
  url : Option String
  holdsSecretUse : Bool
  expectedRotation : Option UInt64

/-- `field_fill`. The compositor asserts what it validated. -/
structure FillReq where
  principal : String
  grantId : Option Ulid
  name : String
  role : NodeRole
  credential : Bool
  appId : String
  url : Option String
  generation : UInt64
  expectedGeneration : UInt64
  holdsSecretUse : Bool
  holdsSeatText : Bool
  appListed : Bool
  expectedRotation : Option UInt64

/-- `materialize`: needs `secret.expose`, never `secret.use`. -/
structure MaterializeReq where
  principal : String
  grantId : Option Ulid
  name : String
  target : String
  holdsSecretExpose : Bool
  expectedRotation : Option UInt64

structure TotpReq where
  principal : String
  grantId : Option Ulid
  name : String
  host : String
  port : UInt16
  holdsSecretUse : Bool

structure Released where
  value : Bytes
  rotationCounter : UInt64
  deriving DecidableEq

/-! ## Where a path lets a secret go

Each path's own rule about the record. Only the rate limit of one-time codes keeps
anything. -/

def SubstituteReq.scope (req : SubstituteReq) (known : Meta) (logs : IssueLogs) :
    Except Status Unit × IssueLogs :=
  let ok := known.boundTo.any fun binding =>
    match binding with
    | .host _ _ => binding.matchesEndpoint req.host req.port
    | .url _ _ _ _ => req.url.any binding.matchesUrl
    | .app _ => false
  (if ok then .ok () else .error .outOfScope, logs)

/-- A record with both kinds of binding needs both to match. -/
def FillReq.scope (req : FillReq) (known : Meta) (logs : IssueLogs) :
    Except Status Unit × IssueLogs :=
  let hasWeb := known.boundTo.any (·.isWeb)
  let hasApp := known.boundTo.any fun binding => !binding.isWeb
  let webOk := !hasWeb || req.url.any fun url => known.boundTo.any (·.matchesUrl url)
  let appOk := !hasApp || known.boundTo.any (·.matchesApp req.appId)
  (if webOk && appOk then .ok () else .error .outOfScope, logs)

def TotpReq.scope (req : TotpReq) (now : UInt64) (known : Meta) (logs : IssueLogs) :
    Except Status Unit × IssueLogs :=
  if known.kind ≠ .totp then
    (.error .invalidArgument, logs)
  else if known.boundTo.any (·.matchesEndpoint req.host req.port) = false then
    (.error .outOfScope, logs)
  else
    let (issued, log) := ((logs.lookup known.id).getD ⟨[]⟩).tryIssue now
    (if issued then .ok () else .error .rateLimited, logs.insert known.id log)

/-! ## The broker's state -/

inductive State where
  | locked
  | unlocked (store : Store)
  deriving DecidableEq

structure Broker where
  files : Files FileName
  state : State
  totp : IssueLogs

/-- A call of the store's or of the sink's that a request makes. -/
inductive Event where
  | lookup (name : String)
  | read (name : String)
  | emit (record : SecretRecord) (accepted : Bool)
  deriving DecidableEq

/-- What a request is answered, the broker it leaves and the calls it made, in order. -/
structure Outcome (α : Type) where
  answer : Except Status α
  broker : Broker
  trace : List Event

def Outcome.map {α β : Type} (transform : α → β) (outcome : Outcome α) : Outcome β :=
  ⟨outcome.answer.map transform, outcome.broker, outcome.trace⟩

namespace Broker

def refuse {α : Type} (broker : Broker) (status : Status) : Outcome α :=
  ⟨.error status, broker, []⟩

def isUnlocked (broker : Broker) : Bool :=
  match broker.state with
  | .unlocked _ => true
  | .locked => false

section Owner

variable [Aead] (sink : AuditSink) (broker : Broker) (peer : Peer)

/-- The record follows the write, since the store mints the id. Where the sink does not
take it the write is undone. -/
def add (spec : NewSecret) (value : Bytes) (now : UInt64) (entropy : FixedBytes 10)
    (draws : Draws) : Outcome Meta :=
  if allowed peer .add = false then
    broker.refuse .noCapability
  else
    match broker.state with
    | .locked => broker.refuse .brokerLocked
    | .unlocked store =>
      match store.add spec value now entropy draws with
      | .error .exists | .error (.record _) | .error .tooLarge => broker.refuse .invalidArgument
      | .error _ => broker.refuse .internal
      | .ok (added, store, ops) =>
        let files := runAll ops broker.files
        let record := SecretRecord.ofOwner added.id 0 "add" "added"
        if sink record.emission then
          ⟨.ok added, { broker with files, state := .unlocked store }, [.emit record true]⟩
        else
          let (_, store, ops) := store.revoke files spec.name
          ⟨.error .internal, { broker with files := runAll ops files, state := .unlocked store },
            [.emit record false]⟩

def rotate (name : String) (value : Bytes) (draws : Draws) : Outcome Meta :=
  if allowed peer .rotate = false then
    broker.refuse .noCapability
  else
    match broker.state with
    | .locked => broker.refuse .brokerLocked
    | .unlocked store =>
      match store.«meta» name with
      | none => ⟨.error .noCapability, broker, [.lookup name]⟩
      | some known =>
        let record :=
          SecretRecord.ofOwner known.id (known.rotationCounter + 1) "rotate" "rotated"
        if sink record.emission then
          let trace := [.lookup name, .emit record true]
          match store.rotate name value draws with
          | .error .tooLarge => ⟨.error .invalidArgument, broker, trace⟩
          | .error _ => ⟨.error .internal, broker, trace⟩
          | .ok (rotated, store, ops) =>
            ⟨.ok rotated,
              { broker with files := runAll ops broker.files, state := .unlocked store },
              trace⟩
        else
          ⟨.error .internal, broker, [.lookup name, .emit record false]⟩

def revoke (name : String) : Outcome Unit :=
  if allowed peer .revoke = false then
    broker.refuse .noCapability
  else
    match broker.state with
    | .locked => broker.refuse .brokerLocked
    | .unlocked store =>
      match store.«meta» name with
      | none => ⟨.error .noCapability, broker, [.lookup name]⟩
      | some known =>
        let record := SecretRecord.ofOwner known.id known.rotationCounter "revoke" "revoked"
        if sink record.emission then
          let trace := [.lookup name, .emit record true]
          let (done, store, ops) := store.revoke broker.files name
          let left := { broker with files := runAll ops broker.files, state := .unlocked store }
          match done with
          | .error _ => ⟨.error .internal, left, trace⟩
          | .ok () => ⟨.ok (), { left with totp := left.totp.erase known.id }, trace⟩
        else
          ⟨.error .internal, broker, [.lookup name, .emit record false]⟩

end Owner

/-- What is asked of the record before its value is read. -/
def preconditions (need : Option Mode) (expectedRotation : Option UInt64)
    (scope : Meta → IssueLogs → Except Status Unit × IssueLogs) (known : Meta) (logs : IssueLogs) :
    Except Status Unit × IssueLogs :=
  if need.any fun mode => !known.hasMode mode then
    (.error .outOfScope, logs)
  else
    match scope known logs with
    | (.error status, logs) => (.error status, logs)
    | (.ok (), logs) =>
      if expectedRotation.any (· ≠ known.rotationCounter) then
        (.error .secretRotated, logs)
      else
        (.ok (), logs)

section Release

variable [Aead] (sink : AuditSink) (broker : Broker) (peer : Peer)

/-- The shared steps: the checks that need the store, the read, the audit record. `scope`
is the path's own `bound_to` rule. -/
def release (name : String) (need : Option Mode) (modeLabel destination principal : String)
    (grant : Option Ulid) (expectedRotation : Option UInt64) (reportLen : Bool)
    (scope : Meta → IssueLogs → Except Status Unit × IssueLogs) : Outcome Released :=
  match broker.state with
  | .locked => broker.refuse .brokerLocked
  | .unlocked store =>
    match store.«meta» name with
    | none => ⟨.error .noCapability, broker, [.lookup name]⟩
    | some known =>
      let record : SecretRecord := ⟨known.id, known.rotationCounter, modeLabel,
        auditDest destination, principal, grant, "ok", none⟩
      let (checked, totp) := preconditions need expectedRotation scope known broker.totp
      let broker := { broker with totp }
      match checked with
      | .error status =>
        let record := { record with outcome := status.outcome }
        -- a denial that cannot be journalled is still a denial
        ⟨.error status, broker, [.lookup name, .emit record (sink record.emission)]⟩
      | .ok () =>
        match store.readValue broker.files name with
        | .error _ => ⟨.error .internal, broker, [.lookup name, .read name]⟩
        | .ok value =>
          let record :=
            { record with length := if reportLen then some value.length.toUInt64 else none }
          let accepted := sink record.emission
          ⟨if accepted then .ok ⟨value, known.rotationCounter⟩ else .error .internal,
            broker, [.lookup name, .read name, .emit record accepted]⟩

/-- `proxy_header`. -/
def substitute (req : SubstituteReq) : Outcome Released :=
  if allowed peer .substitute = false then
    broker.refuse .noCapability
  else if principalOk req.principal = false then
    broker.refuse .invalidArgument
  else if req.holdsSecretUse = false then
    broker.refuse .noCapability
  else
    broker.release sink req.name (some .proxyHeader) Mode.proxyHeader.asStr
      (req.url.getD (req.host ++ ":" ++ toString req.port)) req.principal req.grantId
      req.expectedRotation false req.scope

/-- `field_fill`. -/
def fieldFill (req : FillReq) : Outcome Released :=
  let roleOk :=
    match req.role with
    | .password => true
    | .textField => req.credential
    | .other => false
  if allowed peer .fieldFill = false then
    broker.refuse .noCapability
  else if principalOk req.principal = false then
    broker.refuse .invalidArgument
  else if req.holdsSecretUse = false ∨ req.holdsSeatText = false then
    broker.refuse .noCapability
  else if roleOk = false then
    broker.refuse .invalidArgument
  else if req.generation ≠ req.expectedGeneration then
    broker.refuse .staleGeneration
  else if req.appListed = false then
    broker.refuse .outOfScope
  else
    broker.release sink req.name (some .fieldFill) Mode.fieldFill.asStr
      (req.url.getD ("app:" ++ req.appId)) req.principal req.grantId req.expectedRotation true
      req.scope

/-- `materialize`. `bound_to` names network destinations and a sandbox variable has none,
so it is not consulted. -/
def materialize (req : MaterializeReq) : Outcome Released :=
  if allowed peer .materialize = false then
    broker.refuse .noCapability
  else if principalOk req.principal = false then
    broker.refuse .invalidArgument
  else if req.holdsSecretExpose = false then
    broker.refuse .noCapability
  else if ((afterPrefix "env:" req.target.toList).isSome ||
      (afterPrefix "file:" req.target.toList).isSome) = false then
    broker.refuse .invalidArgument
  else
    broker.release sink req.name (some .materialize) Mode.materialize.asStr req.target
      req.principal req.grantId req.expectedRotation false fun _ logs => (.ok (), logs)

/-- `Broker::totp`: a one-time code and the seconds it has left. The seed is not released. -/
def issueTotp [Hmac] (req : TotpReq) (now : UInt64) : Outcome (String × Nat) :=
  if allowed peer .totp = false then
    broker.refuse .noCapability
  else if principalOk req.principal = false then
    broker.refuse .invalidArgument
  else if req.holdsSecretUse = false then
    broker.refuse .noCapability
  else
    let released := broker.release sink req.name none "totp" (req.host ++ ":" ++ toString req.port)
      req.principal req.grantId none false (req.scope now)
    released.map fun released => (code released.value now totpDigits, lifeLeft now)

end Release

end Broker

end EclipseOS.Brokerd
