import EclipseOS.PolicyEval.TaskCodec
import EclipseOS.Policyd.Audit.Record

/-! # Record bodies of the task store

What the journal's `task`, `grant` and `revoke` records carry, and how a replay
reads them. -/

namespace EclipseOS.Policyd

open Foundation PolicyEval Cbor

/-! ## Tasks -/

def closedReason : TaskState → Option CloseReason
  | .closed reason => some reason
  | _ => none

/-- `hash` is the statement's, which outlives the statement. -/
def taskBody (task : Task) (op : String) (hash : Digest) : Bytes :=
  MapBuilder.new
    |>.insertOpt "agent_note" (task.agentNote.map Writer.text)
    |>.insert "chain_root" (Writer.text task.chainRoot)
    |>.insertOpt "close_reason"
      ((closedReason task.state).map fun reason => Writer.text reason.asStr)
    |>.insert "counters" task.counters.encode
    |>.insert "deadline" (Writer.u64 task.deadlineMs)
    |>.insert "depth" (Writer.u64 task.depth.toUInt64)
    |>.insert "op" (Writer.text op)
    |>.insert "opened" (Writer.u64 task.openedMs)
    |>.insert "origin" (Writer.text task.origin.asStr)
    |>.insert "origin_ref" (Writer.text task.originRef)
    |>.insertOpt "parent" (task.parentTaskId.map fun parent => Writer.bytes parent.val)
    |>.insert "state" (Writer.text task.state.asStr)
    |>.insert "statement_hash" (Writer.bytes hash.val)
    |>.finish

/-- The task read so far, and the fields its state and hash are made of. -/
structure TaskFields where
  task : Task
  state : String
  closeReason : Option CloseReason
  hash : Digest

namespace TaskFields

def initial (id : Ulid) (principal : String) : TaskFields :=
  ⟨⟨id, principal, .human, "", "", none, none, 0, .active, 0, 0, "", .default⟩, "active", none,
    zeroBytes 32⟩

def read (key : String) (fields : TaskFields) : Read Cbor.Error TaskFields :=
  let task := fields.task
  match key with
  | "agent_note" => return { fields with task := { task with agentNote := some (← text) } }
  | "chain_root" => return { fields with task := { task with chainRoot := ← text } }
  | "close_reason" => return { fields with closeReason := some (← textAs CloseReason.parse) }
  | "counters" => return { fields with task := { task with counters := ← Counters.decode } }
  | "deadline" => return { fields with task := { task with deadlineMs := ← u64 } }
  | "depth" => return { fields with task := { task with depth := ← u32 } }
  | "op" => do
    let _ ← text
    return fields
  | "opened" => return { fields with task := { task with openedMs := ← u64 } }
  | "origin" => return { fields with task := { task with origin := ← textAs Origin.parse } }
  | "origin_ref" => return { fields with task := { task with originRef := ← text } }
  | "parent" =>
    return { fields with task := { task with parentTaskId := some (← byteArray 16) } }
  | "state" => return { fields with state := ← text }
  | "statement_hash" => return { fields with hash := ← byteArray 32 }
  | _ => fail .type

def taskState (fields : TaskFields) : Except Cbor.Error TaskState :=
  match fields.state, fields.closeReason with
  | "active", _ => .ok .active
  | "paused", _ => .ok .paused
  | "draining", _ => .ok .draining
  | "closed", some reason => .ok (.closed reason)
  | _, _ => .error .type

end TaskFields

/-- Rebuilds a task, without its statement, and the statement's hash. -/
def readTaskBody (id : Ulid) (principal : String) (body : Bytes) :
    Except Cbor.Error (Task × Digest) := do
  let fields ← decodeAll (readMap (.initial id principal) TaskFields.read) body
  let state ← fields.taskState
  return ({ fields.task with state }, fields.hash)

/-! ## Grants -/

inductive GrantReason where
  | rule
  | prompt
  | manifest
  deriving DecidableEq

def GrantReason.asStr : GrantReason → String
  | rule => "rule"
  | prompt => "prompt"
  | manifest => "manifest"

/-- A grant as `policyd` remembers it, with the signed bytes it handed out. -/
structure Issued where
  grant : Grant
  cose : Bytes
  revoked : Bool
  deriving DecidableEq

def grantBody (cose : Bytes) (issuer : String) (reason : GrantReason) : Bytes :=
  MapBuilder.new
    |>.insert "cose" (Writer.bytes cose)
    |>.insert "issuer" (Writer.text issuer)
    |>.insert "reason" (Writer.text reason.asStr)
    |>.finish

/-- The keys of a grant record. Only the signed bytes are kept. -/
def readGrantField (key : String) (cose : Bytes) : Read Cbor.Error Bytes :=
  match key with
  | "cose" => bytes
  | "issuer" | "reason" => do
    skip
    return cose
  | _ => fail .type

/-- The payload of a COSE_Sign1. What follows it is not looked at. -/
def readPayload : Read Cbor.Error Bytes := do
  if (← arrayLen) ≠ 4 then
    fail .type
  else
    let _ ← bytes
    let _ ← mapBegin
    mapEnd
    bytes

def replayIssued (body : Bytes) : Except Cbor.Error Issued := do
  let cose ← decodeAll (readMap [] readGrantField) body
  let payload ← Prod.fst <$> readPayload.run (Reader.new cose)
  let grant ← Grant.decode payload
  return ⟨grant, cose, false⟩

/-! ## Revocations -/

def revokeBody (ids : List Ulid) : Bytes :=
  MapBuilder.new
    |>.insert "grants" (arrayOf (fun id : Ulid => Writer.bytes id.val) ids)
    |>.insert "reason" (Writer.text "task_closed")
    |>.finish

def readRevokeField (key : String) (ids : List Ulid) : Read Cbor.Error (List Ulid) :=
  match key with
  | "grants" => return ids ++ (← arrayItems (byteArray 16))
  | _ => do
    skip
    return ids

def replayRevoked (body : Bytes) : Except Cbor.Error (List Ulid) :=
  decodeAll (readMap [] readRevokeField) body

end EclipseOS.Policyd

/-! ## Reading the task store's bodies back

A `grant` or `revoke` body comes back as it was written. A `task` body comes back
up to its counters, which come back as the counter decoder reads them. -/

namespace EclipseOS.Policyd

open Foundation PolicyEval Cbor

/-! ## Tasks -/

namespace TaskFields

instance local_read (key : String) (fields : TaskFields) : Local (read key fields) := by
  unfold read
  dsimp only
  split <;> infer_instance

/-- The fields of a `task` body: the task, the operation and the statement's hash. -/
def schema : Schema (Task × String × Digest) :=
  [("op", fun entry => some (Writer.text entry.2.1)),
    ("depth", fun entry => some (Writer.u64 entry.1.depth.toUInt64)),
    ("state", fun entry => some (Writer.text entry.1.state.asStr)),
    ("opened", fun entry => some (Writer.u64 entry.1.openedMs)),
    ("origin", fun entry => some (Writer.text entry.1.origin.asStr)),
    ("parent", fun entry => entry.1.parentTaskId.map fun parent => Writer.bytes parent.val),
    ("counters", fun entry => some entry.1.counters.encode),
    ("deadline", fun entry => some (Writer.u64 entry.1.deadlineMs)),
    ("agent_note", fun entry => entry.1.agentNote.map Writer.text),
    ("chain_root", fun entry => some (Writer.text entry.1.chainRoot)),
    ("origin_ref", fun entry => some (Writer.text entry.1.originRef)),
    ("close_reason", fun entry =>
      (closedReason entry.1.state).map fun reason => Writer.text reason.asStr),
    ("statement_hash", fun entry => some (Writer.bytes entry.2.2.val))]

theorem schema_ascend : NamesAscend (schema.map Prod.fst) := by
  show NamesAscend ["op", "depth", "state", "opened", "origin", "parent", "counters",
    "deadline", "agent_note", "chain_root", "origin_ref", "close_reason", "statement_hash"]
  decide

end TaskFields

theorem taskBody_eq (task : Task) (op : String) (hash : Digest) :
    taskBody task op hash =
      mapBytes (presentRows (TaskFields.schema.rows (task, op, hash))) := by
  simp only [taskBody, MapBuilder.new_eq_ofRows, MapBuilder.insert_ofRows,
    MapBuilder.insertOpt_ofRows, List.nil_append, List.cons_append]
  exact Schema.finish_of_order TaskFields.schema_ascend
    [8, 9, 11, 6, 7, 1, 0, 3, 4, 10, 5, 2, 12] (by decide) rfl

theorem TaskFields.framed_of_accepts {depth : Nat} {key : String} {before after : TaskFields}
    {encoding : Bytes} (accepts : Accepts (TaskFields.read key before) depth after encoding) :
    Framed encoding := by
  unfold TaskFields.read at accepts
  dsimp only at accepts
  split at accepts <;> try rcases accepts_store.mp accepts with ⟨value, found, -⟩
  · exact framed_of_accepts_text found
  · exact framed_of_accepts_text found
  · exact framed_of_accepts_textAs found
  · exact Counters.framed_of_accepts_decode found
  · exact framed_of_accepts_u64 found
  · exact framed_of_accepts_u32 found
  · exact framed_of_accepts_text found
  · exact framed_of_accepts_u64 found
  · exact framed_of_accepts_textAs found
  · exact framed_of_accepts_text found
  · exact framed_of_accepts_byteArray found
  · exact framed_of_accepts_text found
  · exact framed_of_accepts_byteArray found
  · exact absurd accepts not_accepts_fail

theorem taskRows_framed {task : Task} {op : String} {hash : Digest}
    (short : (taskBody task op hash).length < 2 ^ 64) :
    ∀ row ∈ presentRows (TaskFields.schema.rows (task, op, hash)), Framed row.2 := by
  rw [taskBody_eq] at short
  refine Framed.presentRows ?_ short
  simp only [TaskFields.schema, List.forall_mem_cons, Option.mem_def, Option.some.injEq,
    Option.map_eq_some_iff]
  refine ⟨?_, ?_, ?_, ?_, ?_, ?_, ?_, ?_, ?_, ?_, ?_, ?_, ?_, by simp⟩
  · rintro _ rfl short
    exact .ofText short
  · rintro _ rfl -
    exact .ofU64 _
  · rintro _ rfl short
    exact .ofText short
  · rintro _ rfl -
    exact .ofU64 _
  · rintro _ rfl short
    exact .ofText short
  · rintro _ ⟨parent, -, rfl⟩ short
    exact .ofBytes (parent.property.symm ▸ by decide)
  · rintro _ rfl short
    exact Counters.encode_framed short
  · rintro _ rfl -
    exact .ofU64 _
  · rintro _ ⟨note, -, rfl⟩ short
    exact .ofText short
  · rintro _ rfl short
    exact .ofText short
  · rintro _ rfl short
    exact .ofText short
  · rintro _ ⟨reason, -, rfl⟩ short
    exact .ofText short
  · rintro _ rfl -
    exact .ofBytes (hash.property.symm ▸ by decide)

theorem taskState_of_spelled {fields : TaskFields} {state : TaskState}
    (spelled : fields.state = state.asStr) (reason : fields.closeReason = closedReason state) :
    fields.taskState = .ok state := by
  rcases fields with ⟨task, text, found, hash⟩
  cases spelled
  cases reason
  cases state <;> rfl

/-- What a reader holds at the end of a `task` body. -/
def TaskFields.spelled (task : Task) (hash : Digest) (id : Ulid) (principal : String)
    (counters : Counters) : TaskFields :=
  ⟨{ task with id, principal, statement := "", state := .active, counters }, task.state.asStr,
    closedReason task.state, hash⟩

theorem taskRows_iff {task : Task} {op : String} {hash : Digest} {id : Ulid}
    {principal : String} {after : TaskFields} (short : (taskBody task op hash).length < 2 ^ 64) :
    Rows TaskFields.read 1 (.initial id principal)
        (presentRows (TaskFields.schema.rows (task, op, hash))) after ↔
      ∃ counters, Accepts Counters.decode 1 counters task.counters.encode ∧
        after = .spelled task hash id principal counters := by
  have text : ∀ name value,
      (name, some (Writer.text value)) ∈ TaskFields.schema.rows (task, op, hash) →
      Accepts (Cbor.text : Read Cbor.Error String) 1 value (Writer.text value) := by
    rw [taskBody_eq] at short
    exact fun name value member =>
      accepts_text_of_short (lt_of_le_of_lt (length_le_record member) short)
  rcases task with ⟨taskId, taskPrincipal, origin, originRef, statement, note, parent, depth, state,
    opened, deadline, root, counters⟩
  have opText := text "op" op (by simp [TaskFields.schema, Schema.rows])
  have stateText := text "state" state.asStr (by simp [TaskFields.schema, Schema.rows])
  have rootText := text "chain_root" root (by simp [TaskFields.schema, Schema.rows])
  have refText := text "origin_ref" originRef (by simp [TaskFields.schema, Schema.rows])
  have originText : Accepts (textAs Origin.parse : Read Cbor.Error Origin) 1 origin
      (Writer.text origin.asStr) :=
    accepts_textAs.mpr ⟨_, Origin.parse_asStr origin, rfl, by cases origin <;> decide⟩
  have tail : ∀ found, Rows TaskFields.read 1
      ⟨⟨id, principal, origin, "", "", none, parent, depth, .active, opened, 0, "", found⟩,
        state.asStr, none, zeroBytes 32⟩
      (presentRows [("deadline", some (Writer.u64 deadline)),
        ("agent_note", note.map Writer.text), ("chain_root", some (Writer.text root)),
        ("origin_ref", some (Writer.text originRef)),
        ("close_reason", (closedReason state).map fun reason => Writer.text reason.asStr),
        ("statement_hash", some (Writer.bytes hash.val))]) after ↔
      after = .spelled ⟨taskId, taskPrincipal, origin, originRef, statement, note, parent, depth,
        state, opened, deadline, root, counters⟩ hash id principal found := by
    intro found
    refine (rows_cons_iff_of fun _ => accepts_store_iff deadline
      (accepts_u64.mpr rfl)).trans ?_
    refine (rows_store_iff (fun note => TaskFields.mk ⟨id, principal, origin, "", "", note, parent,
      depth, .active, opened, deadline, "", found⟩ state.asStr none (zeroBytes 32)) ?_).trans ?_
    · intro noted same middle
      have noteText := text "agent_note" noted (by simp_all [TaskFields.schema, Schema.rows])
      exact accepts_store_iff _ noteText
    refine (rows_cons_iff_of fun _ => accepts_store_iff _ rootText).trans ?_
    refine (rows_cons_iff_of fun _ => accepts_store_iff _ refText).trans ?_
    refine (rows_store_iff (fun reason => TaskFields.mk ⟨id, principal, origin, originRef, "", note,
      parent, depth, .active, opened, deadline, root, found⟩ state.asStr reason (zeroBytes 32))
      ?_).trans ?_
    · intro reason _ middle
      exact accepts_store_iff _ (accepts_textAs.mpr ⟨reason.asStr, CloseReason.parse_asStr reason, rfl,
        by cases reason <;> decide⟩)
    refine (rows_cons_iff_of fun _ => accepts_store_iff hash
      (accepts_byteArray.mpr ⟨rfl, by decide⟩)).trans rows_nil_iff
  refine (rows_cons_iff_of fun _ => accepts_store_iff _ opText).trans ?_
  refine (rows_cons_iff_of fun _ => accepts_store_iff depth
    (accepts_u32.mpr rfl)).trans ?_
  refine (rows_cons_iff_of fun _ => accepts_store_iff _ stateText).trans ?_
  refine (rows_cons_iff_of fun _ => accepts_store_iff opened
    (accepts_u64.mpr rfl)).trans ?_
  refine (rows_cons_iff_of fun _ => accepts_store_iff _ originText).trans ?_
  refine (rows_store_iff (fun parent => TaskFields.mk ⟨id, principal, origin, "", "", none, parent,
    depth, .active, opened, 0, "", .default⟩ state.asStr none (zeroBytes 32)) ?_).trans ?_
  · intro parent _ middle
    exact accepts_store_iff _ (accepts_byteArray.mpr ⟨rfl, by decide⟩)
  refine rows_cons_iff.trans ?_
  constructor
  · intro chain
    rcases chain with ⟨_, step, rest⟩
    rcases accepts_store.mp step with ⟨found, decoded, rfl⟩
    exact ⟨found, decoded, (tail found).mp rest⟩
  · intro stored
    rcases stored with ⟨found, decoded, same⟩
    exact ⟨_, accepts_store.mpr ⟨found, decoded, rfl⟩, (tail found).mpr same⟩

/-- A `task` body comes back, without the statement, with whatever its counters
decode to. -/
theorem readTaskBody_taskBody {task read : Task} {op : String} {hash found : Digest}
    {id : Ulid} {principal : String} (short : (taskBody task op hash).length < 2 ^ 64) :
    readTaskBody id principal (taskBody task op hash) = .ok (read, found) ↔
      ∃ counters, Accepts Counters.decode 1 counters task.counters.encode ∧ found = hash ∧
        read = { task with id, principal, statement := "", counters } := by
  have decoded : ∀ fields, decodeAll (readMap (.initial id principal) TaskFields.read)
      (taskBody task op hash) = .ok fields ↔
        ∃ counters, Accepts Counters.decode 1 counters task.counters.encode ∧
          fields = .spelled task hash id principal counters := by
    intro fields
    have framed := taskRows_framed short
    rw [decodeAll_eq_ok, ← taskRows_iff short]
    rw [taskBody_eq] at short ⊢
    rw [accepts_mapBytes (fun _ _ _ _ => TaskFields.framed_of_accepts) framed short]
    have ascend := keysAscend_iff.mpr
      (TaskFields.schema_ascend.sublist (TaskFields.schema.rows_names (task, op, hash)))
    constructor
    · exact fun accepts => accepts.2.2
    · exact fun chain => ⟨by decide, ascend, chain⟩
  have spelled : ∀ counters, (TaskFields.spelled task hash id principal counters).taskState =
      .ok task.state := fun counters => taskState_of_spelled rfl rfl
  constructor
  · intro success
    rcases ok_of_bind_ok success with ⟨fields, isDecoded, continued⟩
    rcases (decoded fields).mp isDecoded with ⟨counters, accepts, rfl⟩
    rw [spelled] at continued
    cases continued
    exact ⟨counters, accepts, rfl, rfl⟩
  · intro rebuilt
    rcases rebuilt with ⟨counters, accepts, rfl, rfl⟩
    rw [readTaskBody, (decoded _).mpr ⟨counters, accepts, rfl⟩]
    change ((TaskFields.spelled task found id principal counters).taskState >>= _) = _
    rw [spelled]
    rfl

/-! ## Grants -/

instance local_readGrantField (key : String) (cose : Bytes) :
    Local (readGrantField key cose) := by
  unfold readGrantField
  split <;> infer_instance

theorem grantSchema_ascend : NamesAscend ["cose", "issuer", "reason"] := by decide

def grantSchema : Schema (Bytes × String × GrantReason) :=
  [("cose", fun entry => some (Writer.bytes entry.1)),
    ("issuer", fun entry => some (Writer.text entry.2.1)),
    ("reason", fun entry => some (Writer.text entry.2.2.asStr))]

theorem grantBody_eq (cose : Bytes) (issuer : String) (reason : GrantReason) :
    grantBody cose issuer reason =
      mapBytes (presentRows (grantSchema.rows (cose, issuer, reason))) := by
  simp only [grantBody, MapBuilder.new_eq_ofRows, MapBuilder.insert_ofRows,
    List.nil_append, List.cons_append]
  have ascend : NamesAscend (grantSchema.map Prod.fst) := grantSchema_ascend
  exact Schema.finish ascend (List.Perm.refl _)

theorem accepts_emptyMap {depth : Nat} (room : depth < maxMapDepth) :
    Accepts (mapBegin >>= fun _ => mapEnd : Read Cbor.Error Unit) depth ()
      MapBuilder.new.finish := by
  intro rest maps depthEqual
  have head : Accepts (expect majorMap : Read Cbor.Error Nat) depth 0 MapBuilder.new.finish :=
    accepts_expect.mpr ⟨rfl, (headFits_iff majorMap (by decide) (by decide)).mpr (by decide)⟩
  have pushed : (pushMap 0 : Read Cbor.Error Unit).run ⟨rest, maps⟩ =
      .ok ((), ⟨rest, ⟨none, 0⟩ :: maps⟩) := by
    change (ite _ _ _ : Read Cbor.Error Unit).run _ = _
    rw [if_neg (Nat.not_le_of_lt (depthEqual ▸ room))]
    rfl
  have unfolded : (mapBegin >>= fun _ => mapEnd : Read Cbor.Error Unit) =
      expect majorMap >>= fun pairs => pushMap pairs >>= fun _ => mapEnd := by
    simp only [mapBegin, bind_assoc, pure_bind]
  rw [unfolded, StateT.run_bind, head rest maps depthEqual]
  change StateT.run (pushMap 0 >>= fun _ => mapEnd) _ = _
  rw [StateT.run_bind, pushed]
  rfl

theorem run_readPayload {header payload : Bytes} (rest : Bytes)
    (headerFits : header.length < 2 ^ 64) (payloadFits : payload.length < 2 ^ 64) :
    readPayload.run (Reader.new (Writer.array 4 ++ (Writer.bytes header ++
      (MapBuilder.new.finish ++ (Writer.bytes payload ++ rest))))) =
      .ok (payload, ⟨rest, []⟩) := by
  have head : Accepts (arrayLen : Read Cbor.Error Nat) 0 4 (Writer.array 4) :=
    accepts_arrayLen.mpr ⟨rfl, by decide⟩
  have skipped : Accepts (bytes : Read Cbor.Error Bytes) 0 header (Writer.bytes header) :=
    accepts_bytes.mpr ⟨rfl, headerFits⟩
  have read : Accepts (bytes : Read Cbor.Error Bytes) 0 payload (Writer.bytes payload) :=
    accepts_bytes.mpr ⟨rfl, payloadFits⟩
  have tail : Accepts ((mapBegin >>= fun _ => mapEnd) >>= fun _ => bytes : Read Cbor.Error Bytes) 0
      payload (MapBuilder.new.finish ++ Writer.bytes payload) :=
    (accepts_emptyMap (by decide)).bind read
  have afterHead : Accepts (bytes >>= fun _ => (mapBegin >>= fun _ => mapEnd) >>= fun _ => bytes :
      Read Cbor.Error Bytes) 0 payload
      (Writer.bytes header ++ (MapBuilder.new.finish ++ Writer.bytes payload)) := skipped.bind tail
  have whole : Accepts (arrayLen >>= fun n => if n ≠ 4 then fail .type else
      bytes >>= fun _ => (mapBegin >>= fun _ => mapEnd) >>= fun _ => bytes) 0 payload
      (Writer.array 4 ++ (Writer.bytes header ++ (MapBuilder.new.finish ++ Writer.bytes payload))) :=
    head.bind (by simpa using afterHead)
  have run := whole rest [] rfl
  simp only [List.append_assoc] at run
  simpa only [readPayload, Reader.new, bind_assoc] using run

theorem replayIssued_grantBody {grant : Grant} {reason : GrantReason}
    {header : Bytes} {signature : FixedBytes 64} {issuer : String}
    (short : (grantBody (coseSign1 header grant.encode signature) issuer reason).length <
      2 ^ 64) :
    replayIssued (grantBody (coseSign1 header grant.encode signature) issuer reason) =
      .ok ⟨grant, coseSign1 header grant.encode signature, false⟩ := by
  have small : ∀ name value, (name, some value) ∈
      grantSchema.rows (coseSign1 header grant.encode signature, issuer, reason) →
      value.length < 2 ^ 64 := by
    rw [grantBody_eq] at short
    exact fun name value member => lt_of_le_of_lt (length_le_record member) short
  have coseShort := small "cose" (Writer.bytes (coseSign1 header grant.encode signature))
    (by simp [grantSchema, Schema.rows])
  have issuerShort := small "issuer" (Writer.text issuer) (by simp [grantSchema, Schema.rows])
  have lengths : header.length < 2 ^ 64 ∧ grant.encode.length < 2 ^ 64 ∧
      (coseSign1 header grant.encode signature).length < 2 ^ 64 := by
    simp only [coseSign1, Writer.bytes, List.length_append] at coseShort ⊢
    omega
  have cose : decodeAll (readMap [] readGrantField)
      (grantBody (coseSign1 header grant.encode signature) issuer reason) =
      .ok (coseSign1 header grant.encode signature) := by
    rw [decodeAll_eq_ok, grantBody_eq]
    have ascend : NamesAscend (grantSchema.map Prod.fst) := grantSchema_ascend
    refine .record ascend (by decide) (by decide) ?_
    refine .cons (accepts_bytes.mpr ⟨rfl, lengths.2.2⟩) ?_
    refine .cons (accepts_store.mpr ⟨(), accepts_skip.mpr (.ofText issuerShort), rfl⟩) ?_
    refine .cons (accepts_store.mpr ⟨(), accepts_skip.mpr (.ofText ?_), rfl⟩) .nil
    have few : ∀ reason : GrantReason, (Writer.text reason.asStr).length < 2 ^ 64 := by
      intro reason
      cases reason <;> decide
    exact few reason
  have payload := run_readPayload (Writer.bytes signature.val) lengths.1 lengths.2.1
  simp only [← List.append_assoc] at payload
  rw [replayIssued, cose]
  change (Prod.fst <$> readPayload.run (Reader.new (coseSign1 header grant.encode signature)) >>=
    _) = _
  rw [coseSign1, payload]
  change (Grant.decode grant.encode >>= _) = _
  rw [Grant.decode_encode lengths.2.1]
  rfl

/-! ## Revocations -/

instance local_readRevokeField (key : String) (ids : List Ulid) :
    Local (readRevokeField key ids) := by
  unfold readRevokeField
  split <;> infer_instance

def revokeSchema : Schema (List Ulid) :=
  [("grants", fun ids => some (arrayOf (fun id : Ulid => Writer.bytes id.val) ids)),
    ("reason", fun _ => some (Writer.text "task_closed"))]

theorem revokeSchema_ascend : NamesAscend ["grants", "reason"] := by decide

theorem revokeBody_eq (ids : List Ulid) :
    revokeBody ids = mapBytes (presentRows (revokeSchema.rows ids)) := by
  simp only [revokeBody, MapBuilder.new_eq_ofRows, MapBuilder.insert_ofRows,
    List.nil_append, List.cons_append]
  have ascend : NamesAscend (revokeSchema.map Prod.fst) := revokeSchema_ascend
  exact Schema.finish ascend (List.Perm.refl _)

theorem replayRevoked_revokeBody {ids : List Ulid}
    (short : (revokeBody ids).length < 2 ^ 64) : replayRevoked (revokeBody ids) = .ok ids := by
  rw [replayRevoked, decodeAll_eq_ok]
  rw [revokeBody_eq] at short ⊢
  have inRows : ("grants", some (arrayOf (fun id : Ulid => Writer.bytes id.val) ids)) ∈
      revokeSchema.rows ids := by simp [revokeSchema, Schema.rows]
  have listed := lt_of_le_of_lt (length_le_record inRows) short
  have nonempty : ∀ id : Ulid, 0 < (Writer.bytes id.val).length := by
    intro id
    rw [Writer.bytes, List.length_append]
    exact Nat.add_pos_left (Writer.head_length_pos _ _) _
  have accepts : Accepts (arrayItems (byteArray 16) : Read Cbor.Error (List Ulid)) 1 ids
      (arrayOf (fun id : Ulid => Writer.bytes id.val) ids) :=
    accepts_arrayOf nonempty (fun id _ => accepts_byteArray.mpr ⟨rfl, by decide⟩) listed
  have ascend : NamesAscend (revokeSchema.map Prod.fst) := revokeSchema_ascend
  refine .record ascend (by decide) (by decide) ?_
  refine .cons (accepts_store.mpr ⟨ids, accepts, rfl⟩) ?_
  exact .cons (accepts_store.mpr ⟨(), accepts_skip.mpr (.ofText (by decide)), rfl⟩) .nil

end EclipseOS.Policyd
