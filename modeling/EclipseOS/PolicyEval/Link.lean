import EclipseOS.PolicyEval.Audit
import EclipseOS.PolicyEval.Cbor.Slots
import EclipseOS.PolicyEval.Check

/-! # The policy link

The messages on the socket between `policyd` and the compositor: the key offer
that opens it and the tagged maps that follow, in either direction. -/

namespace EclipseOS.PolicyEval

open Foundation Cbor

namespace Link

/-- The only offer version this build speaks. -/
def version : UInt64 := 1

def messageVersion : UInt64 := 2

end Link

/-! ## The key offer -/

/-- Which 32 bytes are an Ed25519 point. -/
class VerifyingKeys where
  isPoint : FixedBytes 32 → Bool

inductive OfferError where
  | cbor (error : Cbor.Error)
  | shape
  | badKey
  deriving DecidableEq

instance : FromCbor OfferError := ⟨.cbor⟩

def encodeKeyOffer (key : FixedBytes 32) : Bytes :=
  MapBuilder.new
    |>.insert "key" (Writer.bytes key.val)
    |>.insert "v" (Writer.u64 Link.version)
    |>.finish

def require (holds : Prop) [Decidable holds] : Read OfferError Unit :=
  if holds then return () else throw .shape

/-- Canonical order is by encoded key, so the shorter "v" comes first. -/
def readKeyOffer : Read OfferError (FixedBytes 32) := do
  require ((← mapBegin) = 2)
  require ((← Cbor.key) = "v")
  require ((← u64) = Link.version)
  require ((← Cbor.key) = "key")
  let key ← byteArray 32
  mapEnd
  return key

def decodeKeyOffer [VerifyingKeys] (bytes : Bytes) : Except OfferError (FixedBytes 32) := do
  let key ← decodeAll readKeyOffer bytes
  if VerifyingKeys.isPoint key then
    return key
  else
    throw .badKey

/-! ## Messages -/

/-- One audit record as the emergency panel shows it. -/
structure TailRecord where
  kind : String
  reqId : Option UInt64
  atNs : UInt64
  deriving DecidableEq

/-- `policyd` to the compositor and `agentd`. -/
inductive FromPolicyd where
  | table (table : Bytes) (sig : FixedBytes 64)
  | deferAnswer (req : UInt64) (answer : DeferAnswer)
  | minted (req : UInt64) (grant : Bytes)
  | mintRefused (req : UInt64)
  | revoked (principal : String)
  | auditRecords (req : UInt64) (records : List TailRecord)
  | preview (req preview : UInt64) (display : Bytes)
  | taskCreated (req : UInt64) (task : String)
  | installReview (req review : UInt64) (display : Bytes)
  | done (req : UInt64)
  | refused (req : UInt64) (reason : String)
  | taskState (task state reason : String)
  | provision (task principal package version statement : String) (deadlineMs : UInt64)
      (grant : Bytes) (continuation resumes account : String)
  deriving DecidableEq

inductive CancelMode where
  | drain
  | immediate
  deriving DecidableEq

def CancelMode.asStr : CancelMode → String
  | drain => "drain"
  | immediate => "immediate"

/-- The compositor and `agentd` to `policyd`, besides emissions. -/
inductive ToPolicyd where
  | defer (req : UInt64) (principal capability rule : String)
  | mint (req : UInt64) (principal scope : String) (unattended : Bool)
  | revoke (principal : String)
  | terminate (principal : String)
  | auditTail (req : UInt64) (principal : String) (n : UInt64)
  | previewTask (req slot : UInt64) (package statement : String) (deadlineMs : UInt64)
      (narrowing : Bytes) (continuation resumes account : String)
  | createTask (req slot preview : UInt64)
  | unpauseTask (req slot : UInt64) (task : String)
  | installBegin (req : UInt64) (path : String)
  | installAnswer (review : UInt64) (approve : Bool)
  | pauseTask (req : UInt64) (task : String)
  | cancelTask (req : UInt64) (task : String) (mode : CancelMode)
  | exited (req : UInt64) (task reason : String)
  deriving DecidableEq

inductive MessageError where
  | cbor (error : Cbor.Error)
  | shape
  deriving DecidableEq

instance : FromCbor MessageError := ⟨.cbor⟩

def CancelMode.parse : String → Except MessageError CancelMode
  | "drain" => .ok drain
  | "immediate" => .ok immediate
  | _ => .error .shape

/-! ## Encoding -/

def message (tag : String) (rest : MapBuilder → MapBuilder) : Bytes :=
  (rest (MapBuilder.new
    |>.insert "m" (Writer.text tag)
    |>.insert "v" (Writer.u64 Link.messageVersion))).finish

def encodeTail (record : TailRecord) : Bytes :=
  MapBuilder.new
    |>.insert "kind" (Writer.text record.kind)
    |>.insert "at_ns" (Writer.u64 record.atNs)
    |>.insertOpt "req_id" (record.reqId.map Writer.u64)
    |>.finish

def DeferAnswer.code : DeferAnswer → UInt64
  | deny => 0
  | prompt => 1
  | «fallthrough» => 2

def FromPolicyd.encode : FromPolicyd → Bytes
  | table bytes sig => message "table" fun m => m
      |>.insert "sig" (Writer.bytes sig.val)
      |>.insert "table" (Writer.bytes bytes)
  | deferAnswer req answer => message "defer_answer" fun m => m
      |>.insert "req" (Writer.u64 req)
      |>.insert "answer" (Writer.u64 answer.code)
  | minted req grant => message "minted" fun m => m
      |>.insert "req" (Writer.u64 req)
      |>.insert "grant" (Writer.bytes grant)
  | mintRefused req => message "mint_refused" fun m => m.insert "req" (Writer.u64 req)
  | revoked principal => message "revoked" fun m => m.insert "principal" (Writer.text principal)
  | auditRecords req records => message "audit_records" fun m => m
      |>.insert "req" (Writer.u64 req)
      |>.insert "records" (arrayOf encodeTail records)
  | preview req id display => message "preview" fun m => m
      |>.insert "req" (Writer.u64 req)
      |>.insert "preview" (Writer.u64 id)
      |>.insert "display" (Writer.bytes display)
  | taskCreated req task => message "task_created" fun m => m
      |>.insert "req" (Writer.u64 req)
      |>.insert "task" (Writer.text task)
  | installReview req review display => message "install_review" fun m => m
      |>.insert "req" (Writer.u64 req)
      |>.insert "review" (Writer.u64 review)
      |>.insert "display" (Writer.bytes display)
  | done req => message "done" fun m => m.insert "req" (Writer.u64 req)
  | refused req reason => message "refused" fun m => m
      |>.insert "req" (Writer.u64 req)
      |>.insert "reason" (Writer.text reason)
  | taskState task state reason => message "task_state" fun m => m
      |>.insert "task" (Writer.text task)
      |>.insert "state" (Writer.text state)
      |>.insert "reason" (Writer.text reason)
  | provision task principal package version statement deadlineMs grant continuation resumes
      account => message "provision" fun m => m
      |>.insert "account" (Writer.text account)
      |>.insert "resumes" (Writer.text resumes)
      |>.insert "task" (Writer.text task)
      |>.insert "grant" (Writer.bytes grant)
      |>.insert "package" (Writer.text package)
      |>.insert "version" (Writer.text version)
      |>.insert "deadline" (Writer.u64 deadlineMs)
      |>.insert "principal" (Writer.text principal)
      |>.insert "statement" (Writer.text statement)
      |>.insert "continuation" (Writer.text continuation)

def ToPolicyd.encode : ToPolicyd → Bytes
  | defer req principal capability rule => message "defer" fun m => m
      |>.insert "req" (Writer.u64 req)
      |>.insert "rule" (Writer.text rule)
      |>.insert "principal" (Writer.text principal)
      |>.insert "capability" (Writer.text capability)
  | mint req principal scope unattended => message "mint" fun m => m
      |>.insert "req" (Writer.u64 req)
      |>.insert "scope" (Writer.text scope)
      |>.insert "principal" (Writer.text principal)
      |>.insert "unattended" (Writer.bool unattended)
  | revoke principal => message "revoke" fun m => m.insert "principal" (Writer.text principal)
  | terminate principal =>
    message "terminate" fun m => m.insert "principal" (Writer.text principal)
  | auditTail req principal n => message "audit_tail" fun m => m
      |>.insert "n" (Writer.u64 n)
      |>.insert "req" (Writer.u64 req)
      |>.insert "principal" (Writer.text principal)
  | previewTask req slot package statement deadlineMs narrowing continuation resumes account =>
    message "preview_task" fun m => m
    |>.insert "account" (Writer.text account)
    |>.insert "resumes" (Writer.text resumes)
    |>.insert "req" (Writer.u64 req)
    |>.insert "slot" (Writer.u64 slot)
    |>.insert "package" (Writer.text package)
    |>.insert "deadline" (Writer.u64 deadlineMs)
    |>.insert "narrowing" (Writer.bytes narrowing)
    |>.insert "statement" (Writer.text statement)
    |>.insert "continuation" (Writer.text continuation)
  | createTask req slot preview => message "create_task" fun m => m
      |>.insert "req" (Writer.u64 req)
      |>.insert "slot" (Writer.u64 slot)
      |>.insert "preview" (Writer.u64 preview)
  | unpauseTask req slot task => message "unpause_task" fun m => m
      |>.insert "req" (Writer.u64 req)
      |>.insert "slot" (Writer.u64 slot)
      |>.insert "task" (Writer.text task)
  | installBegin req path => message "install_begin" fun m => m
      |>.insert "req" (Writer.u64 req)
      |>.insert "path" (Writer.text path)
  | installAnswer review approve => message "install_answer" fun m => m
      |>.insert "review" (Writer.u64 review)
      |>.insert "approve" (Writer.bool approve)
  | pauseTask req task => message "pause_task" fun m => m
      |>.insert "req" (Writer.u64 req)
      |>.insert "task" (Writer.text task)
  | cancelTask req task mode => message "cancel_task" fun m => m
      |>.insert "req" (Writer.u64 req)
      |>.insert "task" (Writer.text task)
      |>.insert "mode" (Writer.text mode.asStr)
  | exited req task reason => message "exited" fun m => m
      |>.insert "req" (Writer.u64 req)
      |>.insert "task" (Writer.text task)
      |>.insert "reason" (Writer.text reason)

/-! ## Fields -/

/-- Fields any link message may carry. Each tag allows a fixed subset. -/
inductive FieldName where
  | m
  | v
  | n
  | req
  | sig
  | rule
  | grant
  | scope
  | table
  | answer
  | records
  | principal
  | capability
  | unattended
  | reason
  | deadline
  | statement
  | slot
  | package
  | narrowing
  | continuation
  | preview
  | display
  | task
  | mode
  | path
  | review
  | approve
  | state
  | version
  | resumes
  | account
  deriving DecidableEq

namespace FieldName

def all : List FieldName :=
  [m, v, n, req, sig, rule, grant, scope, table, answer, records, principal, capability,
    unattended, reason, deadline, statement, slot, package, narrowing, continuation, preview,
    display, task, mode, path, review, approve, state, version, resumes, account]

def key : FieldName → String
  | m => "m"
  | v => "v"
  | n => "n"
  | req => "req"
  | sig => "sig"
  | rule => "rule"
  | grant => "grant"
  | scope => "scope"
  | table => "table"
  | answer => "answer"
  | records => "records"
  | principal => "principal"
  | capability => "capability"
  | unattended => "unattended"
  | reason => "reason"
  | deadline => "deadline"
  | statement => "statement"
  | slot => "slot"
  | package => "package"
  | narrowing => "narrowing"
  | continuation => "continuation"
  | preview => "preview"
  | display => "display"
  | task => "task"
  | mode => "mode"
  | path => "path"
  | review => "review"
  | approve => "approve"
  | state => "state"
  | version => "version"
  | resumes => "resumes"
  | account => "account"

def parse (text : String) : Option FieldName := all.find? (·.key = text)

end FieldName

inductive FieldKind where
  | uint
  | text
  | bytes
  | bool
  | records
  deriving DecidableEq

@[reducible] def FieldKind.Value : FieldKind → Type
  | uint => UInt64
  | text => String
  | bytes => Bytes
  | bool => Bool
  | records => List TailRecord

@[reducible] def FieldName.kind : FieldName → FieldKind
  | v | n | req | answer | deadline | slot | preview | review => .uint
  | sig | grant | table | narrowing | display => .bytes
  | unattended | approve => .bool
  | records => .records
  | _ => .text

/-- `Some` for the fields a message has. -/
abbrev Fields := Slots fun name : FieldName => name.kind.Value

/-! ## Reading fields -/

structure TailFields where
  kind : Option String
  reqId : Option UInt64
  atNs : Option UInt64

def TailFields.read (key : String) (fields : TailFields) : Read MessageError TailFields :=
  match key with
  | "kind" => return { fields with kind := some (← text) }
  | "at_ns" => return { fields with atNs := some (← u64) }
  | "req_id" => return { fields with reqId := some (← u64) }
  | _ => throw .shape

def TailFields.record (fields : TailFields) : Except MessageError TailRecord :=
  match fields.kind, fields.atNs with
  | some kind, some atNs => .ok ⟨kind, fields.reqId, atNs⟩
  | _, _ => .error .shape

def readTail : Read MessageError TailRecord := do
  orThrow (← readMap ⟨none, none, none⟩ TailFields.read).record

/-- Anything far past what the panel asks for is not an answer. -/
def readRecords : Read MessageError (List TailRecord) := do
  let n ← arrayLen
  if 256 < n then
    throw .shape
  else
    collect n readTail

def FieldKind.read : (kind : FieldKind) → Read MessageError kind.Value
  | uint => u64
  | text => Cbor.text
  | bytes => Cbor.bytes
  | bool => Cbor.bool
  | records => readRecords

namespace Fields

def readField (key : String) (fields : Fields) : Read MessageError Fields :=
  match FieldName.parse key with
  | some name => return fields.set name (← name.kind.read)
  | none => throw .shape

/-- The tag sorts first; a map that does not open with it is not a link message. -/
def read (key : String) (fields : Fields) : Read MessageError Fields :=
  -- No tag has been read before the first key, and before no other.
  if (fields .m).isNone ∧ key ≠ "m" then
    throw .shape
  else
    readField key fields

/-- The fields of `names`, from its lowest bit up. -/
def numbered : List FieldName :=
  [.n, .req, .sig, .rule, .grant, .scope, .table, .answer, .records, .principal, .capability,
    .unattended, .reason, .deadline, .statement, .slot, .package, .narrowing, .continuation,
    .preview, .display, .task, .mode, .path, .review, .approve, .state, .version, .resumes,
    .account]

def names (fields : Fields) : Nat :=
  (numbered.map fun name => (fields name).isSome).zipIdx.foldl
    (fun bits field => if field.1 then bits ||| 1 <<< field.2 else bits) 0

end Fields

def readFields (bytes : Bytes) : Except MessageError Fields := do
  let fields ← decodeAll (readMap Slots.empty Fields.read) bytes
  if fields .v ≠ some Link.messageVersion then
    throw .shape
  else
    return fields

def fN : Nat := 1
def fReq : Nat := 1 <<< 1
def fSig : Nat := 1 <<< 2
def fRule : Nat := 1 <<< 3
def fGrant : Nat := 1 <<< 4
def fScope : Nat := 1 <<< 5
def fTable : Nat := 1 <<< 6
def fAnswer : Nat := 1 <<< 7
def fRecords : Nat := 1 <<< 8
def fPrincipal : Nat := 1 <<< 9
def fCapability : Nat := 1 <<< 10
def fUnattended : Nat := 1 <<< 11
def fReason : Nat := 1 <<< 12
def fDeadline : Nat := 1 <<< 13
def fStatement : Nat := 1 <<< 14
def fSlot : Nat := 1 <<< 15
def fPackage : Nat := 1 <<< 16
def fNarrowing : Nat := 1 <<< 17
def fContinuation : Nat := 1 <<< 18
def fPreview : Nat := 1 <<< 19
def fDisplay : Nat := 1 <<< 20
def fTask : Nat := 1 <<< 21
def fMode : Nat := 1 <<< 22
def fPath : Nat := 1 <<< 23
def fReview : Nat := 1 <<< 24
def fApprove : Nat := 1 <<< 25
def fState : Nat := 1 <<< 26
def fVersion : Nat := 1 <<< 27
def fResumes : Nat := 1 <<< 28
def fAccount : Nat := 1 <<< 29

def shape (fields : Fields) (want : Nat) : Except MessageError Unit :=
  if fields.names = want then .ok () else .error .shape

/-- `ok_or(MessageError::Shape)?`. -/
def required {α : Type} : Option α → Except MessageError α
  | some value => .ok value
  | none => .error .shape

def checked (passes : String → Bool) (value : Option String) : Except MessageError String := do
  let text ← required value
  if passes text then
    return text
  else
    throw .shape

/-- An account name: empty, or up to 32 letters, digits, `_` and `-`. -/
def accountOk (account : String) : Bool :=
  (utf8 account).length ≤ 32 && (utf8 account).all fun byte =>
    (0x30 ≤ byte && byte ≤ 0x39) || (0x41 ≤ byte && byte ≤ 0x5a) ||
      (0x61 ≤ byte && byte ≤ 0x7a) || byte = 0x5f || byte = 0x2d

def taskIdOk (task : String) : Bool :=
  !(utf8 task).isEmpty && (utf8 task).length ≤ 128 && (utf8 task).all isAsciiGraphic

def account : Option String → Except MessageError String := checked accountOk

def principal : Option String → Except MessageError String := checked principalOk

def taskId : Option String → Except MessageError String := checked taskIdOk

/-! ## Decoding -/

def DeferAnswer.parse : Option UInt64 → Except MessageError DeferAnswer
  | some 0 => .ok deny
  | some 1 => .ok prompt
  | some 2 => .ok «fallthrough»
  | _ => .error .shape

/-- A continuation and a resumed task exclude each other. -/
def exclusive (continuation resumes : String) : Except MessageError Unit :=
  if continuation ≠ "" ∧ resumes ≠ "" then .error .shape else .ok ()

def FromPolicyd.ofFields (fields : Fields) : Except MessageError FromPolicyd := do
  match ← required (fields .m) with
  | "table" =>
    shape fields (fSig ||| fTable)
    let sig ← required ((fields .sig).bind FixedBytes.ofBytes)
    return .table (← required (fields .table)) sig
  | "defer_answer" =>
    shape fields (fReq ||| fAnswer)
    let answer ← DeferAnswer.parse (fields .answer)
    return .deferAnswer (← required (fields .req)) answer
  | "minted" =>
    shape fields (fReq ||| fGrant)
    return .minted (← required (fields .req)) (← required (fields .grant))
  | "mint_refused" =>
    shape fields fReq
    return .mintRefused (← required (fields .req))
  | "revoked" =>
    shape fields fPrincipal
    return .revoked (← principal (fields .principal))
  | "audit_records" =>
    shape fields (fReq ||| fRecords)
    return .auditRecords (← required (fields .req)) (← required (fields .records))
  | "preview" =>
    shape fields (fReq ||| fPreview ||| fDisplay)
    return .preview (← required (fields .req)) (← required (fields .preview)) (← required (fields .display))
  | "task_created" =>
    shape fields (fReq ||| fTask)
    return .taskCreated (← required (fields .req)) (← taskId (fields .task))
  | "install_review" =>
    shape fields (fReq ||| fReview ||| fDisplay)
    return .installReview (← required (fields .req)) (← required (fields .review))
      (← required (fields .display))
  | "done" =>
    shape fields fReq
    return .done (← required (fields .req))
  | "refused" =>
    shape fields (fReq ||| fReason)
    return .refused (← required (fields .req)) (← required (fields .reason))
  | "task_state" =>
    shape fields (fTask ||| fState ||| fReason)
    return .taskState (← taskId (fields .task)) (← required (fields .state)) (← required (fields .reason))
  | "provision" =>
    shape fields (fTask ||| fGrant ||| fPackage ||| fVersion ||| fDeadline ||| fPrincipal |||
      fStatement ||| fContinuation ||| fResumes ||| fAccount)
    let continuation ← required (fields .continuation)
    let resumes ← required (fields .resumes)
    exclusive continuation resumes
    return .provision (← taskId (fields .task)) (← principal (fields .principal))
      (← required (fields .package)) (← required (fields .version)) (← required (fields .statement))
      (← required (fields .deadline)) (← required (fields .grant)) continuation resumes
      (← account (fields .account))
  | _ => throw .shape

def FromPolicyd.decode (bytes : Bytes) : Except MessageError FromPolicyd := do
  ofFields (← readFields bytes)

def tailLimit : UInt64 := 256

def ToPolicyd.ofFields (fields : Fields) : Except MessageError ToPolicyd := do
  match ← required (fields .m) with
  | "defer" =>
    shape fields (fReq ||| fRule ||| fPrincipal ||| fCapability)
    return .defer (← required (fields .req)) (← principal (fields .principal))
      (← required (fields .capability)) (← required (fields .rule))
  | "mint" =>
    shape fields (fReq ||| fScope ||| fPrincipal ||| fUnattended)
    return .mint (← required (fields .req)) (← principal (fields .principal))
      (← required (fields .scope)) (← required (fields .unattended))
  | "revoke" =>
    shape fields fPrincipal
    return .revoke (← principal (fields .principal))
  | "terminate" =>
    shape fields fPrincipal
    return .terminate (← principal (fields .principal))
  | "audit_tail" =>
    shape fields (fN ||| fReq ||| fPrincipal)
    return .auditTail (← required (fields .req)) (← principal (fields .principal))
      (min (← required (fields .n)) tailLimit)
  | "preview_task" =>
    shape fields (fReq ||| fSlot ||| fPackage ||| fDeadline ||| fNarrowing ||| fStatement |||
      fContinuation ||| fResumes ||| fAccount)
    exclusive ((fields .continuation).getD "") ((fields .resumes).getD "")
    return .previewTask (← required (fields .req)) (← required (fields .slot))
      (← required (fields .package)) (← required (fields .statement)) (← required (fields .deadline))
      (← required (fields .narrowing)) (← required (fields .continuation))
      (← required (fields .resumes)) (← account (fields .account))
  | "create_task" =>
    shape fields (fReq ||| fSlot ||| fPreview)
    return .createTask (← required (fields .req)) (← required (fields .slot))
      (← required (fields .preview))
  | "unpause_task" =>
    shape fields (fReq ||| fSlot ||| fTask)
    return .unpauseTask (← required (fields .req)) (← required (fields .slot)) (← taskId (fields .task))
  | "install_begin" =>
    shape fields (fReq ||| fPath)
    return .installBegin (← required (fields .req)) (← required (fields .path))
  | "install_answer" =>
    shape fields (fReview ||| fApprove)
    return .installAnswer (← required (fields .review)) (← required (fields .approve))
  | "pause_task" =>
    shape fields (fReq ||| fTask)
    return .pauseTask (← required (fields .req)) (← taskId (fields .task))
  | "exited" =>
    shape fields (fReq ||| fTask ||| fReason)
    let reason ← checked (fun reason => reason = "completed" || reason = "failed") (fields .reason)
    return .exited (← required (fields .req)) (← taskId (fields .task)) reason
  | "cancel_task" =>
    shape fields (fReq ||| fTask ||| fMode)
    return .cancelTask (← required (fields .req)) (← taskId (fields .task))
      (← CancelMode.parse (← required (fields .mode)))
  | _ => throw .shape

def ToPolicyd.decode (bytes : Bytes) : Except MessageError ToPolicyd := do
  ofFields (← readFields bytes)

end EclipseOS.PolicyEval
