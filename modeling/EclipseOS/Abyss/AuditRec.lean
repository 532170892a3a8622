import EclipseOS.PolicyEval.Emission

/-! # The compositor's records

The compositor writes its emissions without a map builder, every map's keys in an
order chosen by hand. -/

namespace EclipseOS.Abyss

open Foundation PolicyEval Cbor

/-- What an agent asked with: the `args` of its `request` record. -/
inductive Args where
  | none
  | filter (text : String)
  | handle (window : UInt64)
  | point (x y : Int64)
  deriving DecidableEq

inductive Body where
  | request (interface name : String) (args : Args)
  | decision (allow : Bool) (ruleId phase : String) (latencyUs : UInt64)
  | result (status : UInt32) (detail : String) (latencyUs : UInt64)
  | lifecycle (event : String)
  | policy (version : UInt64) (hash : Digest)
  | gap (dropped : UInt64)
  | focus (cause : String) (source target : Option UInt64)
  | slot (op : String) (draftHash : Digest) (preview : Option UInt64) (task : Option String)
  | inputRefused (origin : String) (target : UInt64)
  deriving DecidableEq

structure Rec where
  kind : Kind
  principal : String
  taskId : Option Ulid
  reqId : Option UInt32
  body : Body
  deriving DecidableEq

/-- `usize::from(value.is_some())`. -/
def countOf {α : Type} (value : Option α) : Nat := if value.isSome then 1 else 0

def entryOf {α : Type} (key : String) (encode : α → Bytes) (value : Option α) : Bytes :=
  value.elim [] fun value => Writer.text key ++ encode value

def Args.write : Args → Bytes
  | none => Writer.map 0
  | filter text => Writer.map 1 ++ Writer.text "filter" ++ Writer.text text
  | handle window => Writer.map 1 ++ Writer.text "handle" ++ Writer.u64 window
  | point x y =>
    Writer.map 2 ++ Writer.text "x" ++ Writer.i64 x ++ Writer.text "y" ++ Writer.i64 y

def Body.write : Body → Bytes
  | request interface name args =>
    Writer.map 3 ++ Writer.text "args" ++ args.write ++
      Writer.text "request" ++ Writer.text name ++
      Writer.text "interface" ++ Writer.text interface
  | decision allow ruleId phase latencyUs =>
    Writer.map 4 ++ Writer.text "phase" ++ Writer.text phase ++
      Writer.text "outcome" ++ Writer.text (if allow then "allow" else "deny") ++
      Writer.text "rule_id" ++ Writer.text ruleId ++
      Writer.text "latency_us" ++ Writer.u64 latencyUs
  | result status detail latencyUs =>
    Writer.map 3 ++ Writer.text "detail" ++ Writer.text detail ++
      Writer.text "status" ++ Writer.u64 status.toUInt64 ++
      Writer.text "latency_us" ++ Writer.u64 latencyUs
  | lifecycle event => Writer.map 1 ++ Writer.text "event" ++ Writer.text event
  | policy version hash =>
    Writer.map 2 ++ Writer.text "hash" ++ Writer.bytes hash.val ++
      Writer.text "version" ++ Writer.u64 version
  | gap dropped =>
    Writer.map 2 ++ Writer.text "event" ++ Writer.text "audit_gap" ++
      Writer.text "dropped" ++ Writer.u64 dropped
  | focus cause source target =>
    Writer.map (2 + countOf source + countOf target) ++
      Writer.text "seat" ++ Writer.text "seat0" ++
      Writer.text "cause" ++ Writer.text cause ++
      entryOf "to_handle" Writer.u64 target ++
      entryOf "from_handle" Writer.u64 source
  | slot op draftHash preview task =>
    Writer.map (2 + countOf preview + countOf task) ++
      Writer.text "op" ++ Writer.text op ++
      entryOf "task" Writer.text task ++
      entryOf "preview" Writer.u64 preview ++
      Writer.text "draft_hash" ++ Writer.bytes draftHash.val
  | inputRefused origin target =>
    Writer.map 2 ++ Writer.text "origin" ++ Writer.text origin ++
      Writer.text "target" ++ Writer.u64 target

/-- The envelope. `chain_id`, `grant_id` and `serial` are not set by the compositor. -/
def Rec.write (record : Rec) : Bytes :=
  Writer.map (4 + countOf record.reqId + countOf record.taskId) ++
    Writer.text "v" ++ Writer.u64 Emission.version ++
    Writer.text "body" ++ record.body.write ++
    Writer.text "kind" ++ Writer.text record.kind.asStr ++
    entryOf "req_id" (fun reqId => Writer.u64 reqId.toUInt64) record.reqId ++
    entryOf "task_id" (fun task => Writer.bytes task.val) record.taskId ++
    Writer.text "principal" ++ Writer.text record.principal

/-! ## The rows written -/

def Args.rows : Args → List (String × Option Bytes)
  | none => []
  | filter text => [("filter", Writer.text text)]
  | handle window => [("handle", Writer.u64 window)]
  | point x y => [("x", Writer.i64 x), ("y", Writer.i64 y)]

def Body.rows : Body → List (String × Option Bytes)
  | request interface name args =>
    [("args", args.write), ("request", Writer.text name), ("interface", Writer.text interface)]
  | decision allow ruleId phase latencyUs =>
    [("phase", Writer.text phase), ("outcome", Writer.text (if allow then "allow" else "deny")),
      ("rule_id", Writer.text ruleId), ("latency_us", Writer.u64 latencyUs)]
  | result status detail latencyUs =>
    [("detail", Writer.text detail), ("status", Writer.u64 status.toUInt64),
      ("latency_us", Writer.u64 latencyUs)]
  | lifecycle event => [("event", Writer.text event)]
  | policy version hash => [("hash", Writer.bytes hash.val), ("version", Writer.u64 version)]
  | gap dropped => [("event", Writer.text "audit_gap"), ("dropped", Writer.u64 dropped)]
  | focus cause source target =>
    [("seat", Writer.text "seat0"), ("cause", Writer.text cause),
      ("to_handle", target.map Writer.u64), ("from_handle", source.map Writer.u64)]
  | slot op draftHash preview task =>
    [("op", Writer.text op), ("task", task.map Writer.text), ("preview", preview.map Writer.u64),
      ("draft_hash", Writer.bytes draftHash.val)]
  | inputRefused origin target =>
    [("origin", Writer.text origin), ("target", Writer.u64 target)]

theorem Args.write_eq (args : Args) : args.write = mapBytes (presentRows args.rows) := by
  cases args <;> simp [write, rows, mapBytes, presentRows, rowBytes, Writer.map]

theorem Body.write_eq (body : Body) : body.write = mapBytes (presentRows body.rows) := by
  cases body with
  | focus cause source target =>
    cases source <;> cases target <;>
      simp [write, rows, mapBytes, presentRows, rowBytes, Writer.map, countOf, entryOf]
  | slot op draftHash preview task =>
    cases preview <;> cases task <;>
      simp [write, rows, mapBytes, presentRows, rowBytes, Writer.map, countOf, entryOf]
  | _ => simp [write, rows, mapBytes, presentRows, rowBytes, Writer.map]

theorem Args.rows_ascend (args : Args) : NamesAscend (args.rows.map Prod.fst) := by
  cases args <;> simp only [rows, List.map_cons, List.map_nil] <;> decide

theorem Body.rows_ascend (body : Body) : NamesAscend (body.rows.map Prod.fst) := by
  cases body <;> simp only [rows, List.map_cons, List.map_nil] <;> decide

theorem Args.rows_fit (args : Args) : NamesFit (args.rows.map Prod.fst) := by
  cases args <;> simp only [rows, List.map_cons, List.map_nil] <;> decide

theorem Body.rows_fit (body : Body) : NamesFit (body.rows.map Prod.fst) := by
  cases body <;> simp only [rows, List.map_cons, List.map_nil] <;> decide

theorem Args.item {args : Args} (short : args.write.length < 2 ^ 64) : Item 2 args.write := by
  rw [write_eq] at short ⊢
  refine .record args.rows_ascend args.rows_fit (by decide) short ?_
  cases args with
  | none => simp [rows]
  | filter text =>
    simp only [rows, List.forall_mem_cons, Option.mem_some_iff, forall_eq']
    exact ⟨.ofText, by simp⟩
  | handle window =>
    simp only [rows, List.forall_mem_cons, Option.mem_some_iff, forall_eq']
    exact ⟨fun _ => .ofU64 window, by simp⟩
  | point x y =>
    simp only [rows, List.forall_mem_cons, Option.mem_some_iff, forall_eq']
    exact ⟨fun _ => .ofI64 x, fun _ => .ofI64 y, by simp⟩

theorem item_of_digest {depth : Nat} (hash : Digest) : Item depth (Writer.bytes hash.val) :=
  .ofBytes (hash.property.symm ▸ by decide)

theorem Body.item {body : Body} (short : body.write.length < 2 ^ 64) : Item 1 body.write := by
  rw [write_eq] at short ⊢
  refine .record body.rows_ascend body.rows_fit (by decide) short ?_
  cases body with
  | request interface name args =>
    simp only [rows, List.forall_mem_cons, Option.mem_some_iff, forall_eq']
    exact ⟨Args.item, .ofText, .ofText, by simp⟩
  | decision allow ruleId phase latencyUs =>
    simp only [rows, List.forall_mem_cons, Option.mem_some_iff, forall_eq']
    exact ⟨.ofText, .ofText, .ofText, fun _ => .ofU64 latencyUs, by simp⟩
  | result status detail latencyUs =>
    simp only [rows, List.forall_mem_cons, Option.mem_some_iff, forall_eq']
    exact ⟨.ofText, fun _ => .ofU64 status.toUInt64, fun _ => .ofU64 latencyUs, by simp⟩
  | lifecycle event =>
    simp only [rows, List.forall_mem_cons, Option.mem_some_iff, forall_eq']
    exact ⟨.ofText, by simp⟩
  | policy version hash =>
    simp only [rows, List.forall_mem_cons, Option.mem_some_iff, forall_eq']
    exact ⟨fun _ => item_of_digest hash, fun _ => .ofU64 version, by simp⟩
  | gap dropped =>
    simp only [rows, List.forall_mem_cons, Option.mem_some_iff, forall_eq']
    exact ⟨.ofText, fun _ => .ofU64 dropped, by simp⟩
  | focus cause source target =>
    simp only [rows, List.forall_mem_cons, Option.mem_some_iff, forall_eq', Option.mem_map]
    refine ⟨.ofText, .ofText, ?_, ?_, by simp⟩
    · rintro _ ⟨window, -, rfl⟩ -
      exact .ofU64 window
    · rintro _ ⟨window, -, rfl⟩ -
      exact .ofU64 window
  | slot op draftHash preview task =>
    simp only [rows, List.forall_mem_cons, Option.mem_some_iff, forall_eq', Option.mem_map]
    refine ⟨.ofText, ?_, ?_, fun _ => item_of_digest draftHash, by simp⟩
    · rintro _ ⟨named, -, rfl⟩
      exact .ofText
    · rintro _ ⟨shown, -, rfl⟩ -
      exact .ofU64 shown
  | inputRefused origin target =>
    simp only [rows, List.forall_mem_cons, Option.mem_some_iff, forall_eq']
    exact ⟨.ofText, fun _ => .ofU64 target, by simp⟩

/-- The same record as the shared encoder takes it. -/
def Rec.emission (record : Rec) : Emission :=
  ⟨record.kind, record.principal, none, record.taskId, none,
    record.reqId.map UInt32.toUInt64, none, record.body.write⟩

theorem Rec.write_eq (record : Rec) : record.write = record.emission.encode := by
  rw [Emission.encode_eq]
  rcases record with ⟨kind, principal, _ | taskId, _ | reqId, body⟩ <;>
    simp [write, emission, Emission.fields, EmissionFields.schema, Schema.rows, mapBytes,
      presentRows, rowBytes, Writer.map, countOf, entryOf]

theorem Rec.body_item {record : Rec} (short : record.write.length < 2 ^ 64) :
    Item 1 record.body.write := by
  refine Body.item (lt_of_le_of_lt ?_ short)
  simp only [write, List.length_append]
  omega

theorem Rec.emission_fit {record : Rec} (short : record.write.length < 2 ^ 64) :
    record.emission.fields.Fit := by
  constructor
  · rintro _ ⟨⟩
    refine lt_of_le_of_lt (length_le_text record.principal) (lt_of_le_of_lt ?_ short)
    simp only [write, List.length_append]
    omega
  · rintro _ ⟨⟩
    exact record.body_item short

theorem Rec.accepted_iff {record : Rec} (short : record.write.length < 2 ^ 64) :
    (∃ emission, Emission.decode record.write = .ok emission ∧ emission.encode = record.write) ↔
      principalOk record.principal := by
  constructor
  · rintro ⟨emission, decoded, -⟩
    rw [write_eq] at decoded
    have same := Emission.eq_of_decode_encode (emission_fit short) decoded
    rw [← show emission.principal = record.principal from congrArg Emission.principal same]
    exact (Emission.decode_eq_ok.mp decoded).2.1
  · intro ok
    exact ⟨record.emission, Emission.decode_eq_ok.mpr ⟨record.write_eq, ok, record.body_item short⟩,
      record.write_eq.symm⟩

/-- The shared encoder and decoder undo each other, and the decoder takes what the
compositor's writer makes of a record exactly if its principal is well formed. -/
theorem Rec.emissions_agree :
    (∀ emission : Emission, principalOk emission.principal → Item 1 emission.body →
      Emission.decode emission.encode = .ok emission) ∧
    (∀ (bytes : Bytes) (emission : Emission), Emission.decode bytes = .ok emission →
      emission.encode = bytes) ∧
    ∀ record : Rec, record.write.length < 2 ^ 64 →
      ((∃ emission, Emission.decode record.write = .ok emission ∧ emission.encode = record.write) ↔
        principalOk record.principal) := by
  refine ⟨fun emission ok item => Emission.decode_eq_ok.mpr ⟨rfl, ok, item⟩, ?_, fun _ => accepted_iff⟩
  intro bytes emission decoded
  exact (Emission.decode_eq_ok.mp decoded).1.symm

def gapRec (dropped : UInt64) : Rec := ⟨.lifecycle, "system:abyss", none, none, .gap dropped⟩

theorem Rec.emissions_agree_gap :
    Emission.decode (gapRec 3).emission.encode = .ok (gapRec 3).emission ∧
      (gapRec 3).emission.encode = (gapRec 3).write ∧
      ((∃ emission, Emission.decode (gapRec 3).write = .ok emission ∧
        emission.encode = (gapRec 3).write) ↔ principalOk "system:abyss") := by
  have short : (gapRec 3).write.length < 2 ^ 64 := by decide +kernel
  have decoded := Rec.emissions_agree.1 (gapRec 3).emission (by decide) (body_item short)
  refine ⟨decoded, ?_, Rec.emissions_agree.2.2 (gapRec 3) short⟩
  exact Rec.emissions_agree.2.1 _ _ ((write_eq (gapRec 3)).symm ▸ decoded)

/-- A start record whose principal has a space in it. -/
def spacedRec : Rec := ⟨.lifecycle, "agent:a b", none, none, .lifecycle "start"⟩

theorem Rec.spaced_refused : ¬∃ emission, Emission.decode spacedRec.write = .ok emission := by
  rintro ⟨emission, decoded⟩
  have short : spacedRec.write.length < 2 ^ 64 := by decide +kernel
  have written := (Emission.decode_eq_ok.mp decoded).1.symm
  exact absurd ((accepted_iff short).mp ⟨emission, decoded, written⟩) (by decide)

end EclipseOS.Abyss
