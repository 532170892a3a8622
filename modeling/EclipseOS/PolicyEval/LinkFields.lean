import EclipseOS.PolicyEval.Cbor.Entries
import EclipseOS.PolicyEval.Link

/-! # The fields of a link message

The reader of a message's map takes every field a message may have, in canonical
order, and spells back what it took. -/

namespace EclipseOS.PolicyEval

open Foundation Cbor

variable {depth : Nat} {encoding : Bytes}

/-! ## Records of the tail -/

namespace TailFields

instance local_read (key : String) (fields : TailFields) : Local (read key fields) := by
  unfold read
  split <;> infer_instance

def schema : Schema TailFields :=
  [("kind", fun fields => fields.kind.map Writer.text),
    ("at_ns", fun fields => fields.atNs.map Writer.u64),
    ("req_id", fun fields => fields.reqId.map Writer.u64)]

theorem schema_ascend : NamesAscend (schema.map Prod.fst) := by
  show NamesAscend ["kind", "at_ns", "req_id"]
  decide

theorem accepts_fields {fields : TailFields} :
    Accepts (readMap ⟨none, none, none⟩ read) depth fields encoding ↔
      encoding = mapBytes (presentRows (schema.rows fields)) ∧ depth < maxMapDepth ∧
        ∀ kind ∈ fields.kind, (utf8 kind).length < 2 ^ 64 := by
  apply accepts_record schema_ascend (by decide)
  · intro name before after value accepts
    unfold read at accepts
    split at accepts
    · rcases accepts_store.mp accepts with ⟨kind, read, rfl⟩
      rcases accepts_text.mp read with ⟨rfl, fits⟩
      exact ⟨by simp [schema, Schema.Stores], fun _ => by simpa⟩
    · rcases accepts_store.mp accepts with ⟨atNs, read, rfl⟩
      rcases accepts_u64.mp read with rfl
      exact ⟨by simp [schema, Schema.Stores], id⟩
    · rcases accepts_store.mp accepts with ⟨reqId, read, rfl⟩
      rcases accepts_u64.mp read with rfl
      exact ⟨by simp [schema, Schema.Stores], id⟩
    · exact absurd accepts not_accepts_throw
  · simp [schema]
  · simp
  · rintro ⟨kind, reqId, atNs⟩ fit
    refine Rows.store (fun kind => TailFields.mk kind none none) (fun kind found =>
      accepts_store.mpr ⟨kind, accepts_text.mpr ⟨rfl, fit kind found⟩, rfl⟩) ?_
    refine Rows.store (fun atNs => TailFields.mk kind none atNs) (fun atNs _ =>
      accepts_store.mpr ⟨atNs, accepts_u64.mpr rfl, rfl⟩) ?_
    refine Rows.store (fun reqId => TailFields.mk kind reqId atNs) (fun reqId _ =>
      accepts_store.mpr ⟨reqId, accepts_u64.mpr rfl, rfl⟩) ?_
    exact .nil

end TailFields

theorem encodeTail_eq (record : TailRecord) :
    encodeTail record = mapBytes (presentRows (TailFields.schema.rows
      ⟨some record.kind, record.reqId, some record.atNs⟩)) := by
  simp only [encodeTail, MapBuilder.new_eq_ofRows, MapBuilder.insert_ofRows,
    MapBuilder.insertOpt_ofRows, List.nil_append, List.cons_append]
  exact Schema.finish TailFields.schema_ascend (List.Perm.refl _)

theorem tailRecord_eq_ok {found : TailFields} {record : TailRecord} :
    found.record = .ok record ↔ found = ⟨some record.kind, record.reqId, some record.atNs⟩ := by
  rcases found with ⟨_ | kind, reqId, _ | atNs⟩ <;> rcases record with ⟨kind', reqId', atNs'⟩ <;>
    simp [TailFields.record]

instance : Local readTail := by
  unfold readTail
  infer_instance

theorem accepts_readTail {record : TailRecord} :
    Accepts readTail depth record encoding ↔
      encoding = encodeTail record ∧ depth < maxMapDepth ∧ (utf8 record.kind).length < 2 ^ 64 := by
  rw [readTail, accepts_built fun _ _ => tailRecord_eq_ok, TailFields.accepts_fields, encodeTail_eq]
  simp only [Option.mem_some_iff, forall_eq']

instance : Local readRecords := by
  unfold readRecords
  infer_instance

/-- Few enough records, of short enough kinds. -/
structure RecordsFit (records : List TailRecord) : Prop where
  few : records.length ≤ 256
  kinds : ∀ record ∈ records, (utf8 record.kind).length < 2 ^ 64

theorem accepts_readRecords {records : List TailRecord} (room : depth < maxMapDepth) :
    Accepts readRecords depth records encoding ↔
      encoding = arrayOf encodeTail records ∧ RecordsFit records := by
  have item : ∀ record part, Accepts readTail depth record part ↔
      part = encodeTail record ∧ (utf8 record.kind).length < 2 ^ 64 := by
    intro record part
    rw [accepts_readTail, and_iff_right room]
  simp only [readRecords, accepts_bind, accepts_arrayLen, accepts_ite, accepts_collect item,
    not_accepts_throw, and_false, false_or, not_lt]
  constructor
  · rintro ⟨_, _, _, rfl, ⟨rfl, -⟩, few, rfl, rfl, kinds⟩
    exact ⟨rfl, few, kinds⟩
  · rintro ⟨rfl, few, kinds⟩
    exact ⟨_, _, _, rfl, ⟨rfl, by omega⟩, few, rfl, rfl, kinds⟩

/-! ## Fields -/

namespace FieldName

@[simp] theorem parse_key (name : FieldName) : parse name.key = some name := by
  cases name <;> rfl

theorem parse_eq_some {text : String} {name : FieldName} :
    parse text = some name ↔ name.key = text := by
  constructor
  · intro parsed
    simpa using List.find?_some parsed
  · rintro rfl
    exact parse_key name

theorem key_injective : Function.Injective key := by
  intro left right same
  have parsed := congrArg parse same
  simpa using parsed

def ascending : List FieldName :=
  [.m, .n, .v, .req, .sig, .mode, .path, .rule, .slot, .task, .grant, .scope, .state, .table,
    .answer, .reason, .review, .account, .approve, .display, .package, .preview, .records,
    .resumes, .version, .deadline, .narrowing, .principal, .statement, .capability, .unattended,
    .continuation]

theorem ascending_ascend : NamesAscend (ascending.map key) := by
  show NamesAscend
    ["m", "n", "v", "req", "sig", "mode", "path", "rule", "slot", "task", "grant", "scope",
     "state", "table", "answer", "reason", "review", "account", "approve", "display", "package",
     "preview", "records", "resumes", "version", "deadline", "narrowing", "principal",
     "statement", "capability", "unattended", "continuation"]
  decide

theorem mem_ascending (name : FieldName) : name ∈ ascending := by
  cases name <;> decide

end FieldName

namespace FieldKind

def write : (kind : FieldKind) → kind.Value → Bytes
  | uint => Writer.u64
  | text => Writer.text
  | bytes => Writer.bytes
  | bool => Writer.bool
  | records => arrayOf encodeTail

/-- Short enough to be written, and for records few enough to be read. -/
def Fits : (kind : FieldKind) → kind.Value → Prop
  | text => fun value => (utf8 value).length < 2 ^ 64
  | bytes => fun value => value.length < 2 ^ 64
  | records => RecordsFit
  | _ => fun _ => True

instance local_read : ∀ kind : FieldKind, Local kind.read
  | uint => inferInstanceAs (Local u64)
  | text => inferInstanceAs (Local Cbor.text)
  | bytes => inferInstanceAs (Local Cbor.bytes)
  | bool => inferInstanceAs (Local Cbor.bool)
  | records => inferInstanceAs (Local readRecords)

theorem accepts_read (room : depth < maxMapDepth) {kind : FieldKind} {value : kind.Value} :
    Accepts kind.read depth value encoding ↔ encoding = kind.write value ∧ kind.Fits value := by
  cases kind with
  | uint => exact accepts_u64.trans (and_true _).symm.to_iff
  | text => exact accepts_text
  | bytes => exact accepts_bytes
  | bool => exact accepts_bool.trans (and_true _).symm.to_iff
  | records => exact accepts_readRecords room

end FieldKind

namespace Fields

instance local_readField (key : String) (fields : Fields) : Local (readField key fields) := by
  unfold readField
  split <;> infer_instance

instance local_read (key : String) (fields : Fields) : Local (read key fields) := by
  unfold read
  infer_instance

def schema : Schema Fields :=
  slotSchema FieldName.key (fun name => name.kind.write) FieldName.ascending

/-- Every field is short enough, and nothing is there without a tag. -/
structure Fit (fields : Fields) : Prop where
  fits : ∀ name value, fields name = some value → name.kind.Fits value
  tagged : fields .m = none → fields = Slots.empty

theorem accepts_readField {key : String} {before after : Fields} {encoding : Bytes} :
    Accepts (readField key before) 1 after encoding ↔ ∃ name : FieldName, name.key = key ∧
      ∃ value, encoding = name.kind.write value ∧ name.kind.Fits value ∧
        after = before.set name value := by
  cases parsed : FieldName.parse key with
  | none =>
    simp only [readField, parsed, not_accepts_throw, false_iff]
    rintro ⟨name, rfl, -⟩
    simp at parsed
  | some name =>
    have isKey := FieldName.parse_eq_some.mp parsed
    simp only [readField, parsed, accepts_store, FieldKind.accepts_read (show 1 < maxMapDepth by decide)]
    constructor
    · rintro ⟨value, ⟨rfl, fits⟩, rfl⟩
      exact ⟨name, isKey, value, rfl, fits, rfl⟩
    · rintro ⟨other, same, value, rfl, fits, rfl⟩
      obtain rfl := FieldName.key_injective (same.trans isKey.symm)
      exact ⟨value, ⟨rfl, fits⟩, rfl⟩

theorem schema_ascend : NamesAscend (schema.map Prod.fst) := by
  rw [schema, slotSchema_names]
  exact FieldName.ascending_ascend

theorem schema_fit : NamesFit (schema.map Prod.fst) := by
  rw [schema, slotSchema_names]
  decide

private theorem read_stores {key : String} {before after : Fields} {value : Bytes}
    (accepts : Accepts (read key before) 1 after value) :
    schema.Stores key value before after ∧ (before.Fit → after.Fit) := by
  rw [read, accepts_ite] at accepts
  rcases accepts with ⟨-, failed⟩ | ⟨opened, accepts⟩
  · exact absurd failed not_accepts_throw
  rcases accepts_readField.mp accepts with ⟨name, rfl, stored, rfl, fits, rfl⟩
  refine ⟨slotSchema_stores FieldName.key_injective (FieldName.mem_ascending name) _ _, fun fit => ⟨?_, ?_⟩⟩
  · intro other found isSet
    by_cases same : other = name
    · subst same
      rw [Slots.set_same] at isSet
      cases isSet
      exact fits
    · rw [Slots.set_of_ne same] at isSet
      exact fit.fits other found isSet
  · intro untagged
    by_cases isTag : name = .m
    · subst isTag
      rw [Slots.set_same] at untagged
      cases untagged
    · rw [Slots.set_of_ne (Ne.symm isTag)] at untagged
      have other : name.key ≠ "m" := fun same => isTag (FieldName.key_injective same)
      exact absurd ⟨Option.isNone_iff_eq_none.mpr untagged, other⟩ opened

private theorem rows_of_fit {fields : Fields} (fit : fields.Fit) :
    Rows read 1 Slots.empty (presentRows (schema.rows fields)) fields := by
  by_cases untagged : fields .m = none
  · rw [fit.tagged untagged]
    have nothing : presentRows (schema.rows Slots.empty) = [] := rfl
    rw [nothing]
    exact .nil
  · rcases Option.ne_none_iff_exists'.mp untagged with ⟨tag, tagged⟩
    have step : ∀ name value (before : Fields), fields name = some value → (before .m).isSome →
        Accepts (read name.key before) 1 (before.set name value) (name.kind.write value) ∧
          (before.set name value .m).isSome := by
      intro name value before stored opened
      have guard : ¬((before .m).isNone ∧ name.key ≠ "m") := by
        rw [Option.isNone_eq_false_iff.mpr opened]
        simp
      rw [read, if_neg guard, Slots.isSome_set, opened, Bool.or_true]
      exact ⟨accepts_readField.mpr ⟨name, rfl, value, rfl, fit.fits name value stored, rfl⟩, rfl⟩
    have first : Accepts (read "m" Slots.empty) 1 ((Slots.empty : Fields).set .m tag) (Writer.text tag) :=
      accepts_readField.mpr ⟨.m, rfl, tag, rfl, fit.fits .m tag tagged, rfl⟩
    have rest := slotRows (fun before : Fields => (before .m).isSome) step
      (show FieldName.ascending.tail.Nodup by decide)
      (show ((Slots.empty : Fields).set .m tag .m).isSome from rfl)
      (fun name listed => Slots.set_of_ne (fun same => absurd (same ▸ listed) (by decide)))
    have rows : presentRows (schema.rows fields) = ("m", Writer.text tag) ::
        presentRows ((slotSchema FieldName.key (fun name => name.kind.write)
          FieldName.ascending.tail).rows fields) := by
      have whole : schema.rows fields = ("m", (fields .m).map Writer.text) ::
          (slotSchema FieldName.key (fun name => name.kind.write)
            FieldName.ascending.tail).rows fields := rfl
      rw [whole, tagged]
      rfl
    have after : (fun name => if name ∈ FieldName.ascending.tail then fields name
        else (Slots.empty : Fields).set .m tag name) = fields := by
      funext name
      by_cases isTag : name = .m
      · subst isTag
        rw [tagged]
        rfl
      · have listed : name ∈ FieldName.ascending.tail :=
          (List.mem_cons.mp (FieldName.mem_ascending name)).resolve_left isTag
        rw [if_pos listed]
    rw [rows]
    rw [after] at rest
    exact .cons first rest

theorem accepts_fields {fields : Fields} :
    Accepts (readMap Slots.empty read) 0 fields encoding ↔
      encoding = mapBytes (presentRows (schema.rows fields)) ∧ fields.Fit := by
  refine Iff.trans (accepts_record schema_ascend schema_fit (fun _ _ _ _ => read_stores) ?_ ?_
    (fun _ => rows_of_fit)) (and_congr_right fun _ => and_iff_right (by decide))
  · rintro ⟨name, get⟩ member
    rcases List.mem_map.mp member with ⟨field, -, same⟩
    cases same
    rfl
  · constructor
    · intro _ _ isSet
      cases isSet
    · exact fun _ => rfl

end Fields

end EclipseOS.PolicyEval
