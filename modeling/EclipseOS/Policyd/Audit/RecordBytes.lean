import EclipseOS.PolicyEval.Cbor.Entries
import EclipseOS.Policyd.Audit.Record

/-! # The bytes of a record

The reader starts every field but the kind out with a default, so bytes that
leave one out still decode. Apart from that a record has one encoding. -/

namespace EclipseOS.Policyd

open Foundation PolicyEval Cbor

structure RecordSpelling where
  seq : Option UInt64
  ts : Option UInt64
  mono : Option UInt64
  kind : Option Kind
  principal : Option String
  grantId : Option Ulid
  taskId : Option Ulid
  chainId : Option (BitVec 128)
  reqId : Option UInt64
  serial : Option UInt64
  body : Option Bytes
  prevHash : Option Digest

namespace RecordSpelling

variable {depth : Nat} {encoding : Bytes}

/-- The record it decodes to, with the hash that follows the map. -/
def record (spelling : RecordSpelling) (hash : Digest) : Record :=
  ⟨spelling.seq.getD 0, spelling.ts.getD 0, spelling.mono.getD 0, spelling.kind.getD .anchor,
    spelling.principal.getD "", spelling.grantId, spelling.taskId, spelling.chainId,
    spelling.reqId, spelling.serial, spelling.body.getD [], spelling.prevHash.getD genesis, hash⟩

def fields (spelling : RecordSpelling) : RecordFields :=
  ⟨spelling.record genesis, spelling.kind.isSome⟩

def schema : Schema RecordSpelling :=
  [("ts", fun spelling => spelling.ts.map Writer.u64),
    ("seq", fun spelling => spelling.seq.map Writer.u64),
    ("body", fun spelling => spelling.body),
    ("kind", fun spelling => spelling.kind.map fun kind => Writer.text kind.asStr),
    ("mono", fun spelling => spelling.mono.map Writer.u64),
    ("req_id", fun spelling => spelling.reqId.map Writer.u64),
    ("serial", fun spelling => spelling.serial.map Writer.u64),
    ("task_id", fun spelling => spelling.taskId.map fun task => Writer.bytes task.val),
    ("chain_id", fun spelling =>
      spelling.chainId.map fun chain => Writer.bytes (Record.chainIdBytes chain)),
    ("grant_id", fun spelling => spelling.grantId.map fun grant => Writer.bytes grant.val),
    ("prev_hash", fun spelling => spelling.prevHash.map fun hash => Writer.bytes hash.val),
    ("principal", fun spelling => spelling.principal.map Writer.text)]

def bytes (spelling : RecordSpelling) : Bytes := mapBytes (presentRows (schema.rows spelling))

theorem schema_ascend : NamesAscend (schema.map Prod.fst) := Record.schema_ascend

structure Fit (spelling : RecordSpelling) : Prop where
  principal : ∀ principal ∈ spelling.principal, (utf8 principal).length < 2 ^ 64
  body : ∀ body ∈ spelling.body, Item 1 body

theorem chainIdBytes_of {value : FixedBytes 16} :
    Record.chainIdBytes (BitVec.ofNat 128 (ofBigEndian value.val)) = value.val := by
  have small := ofBigEndian_lt value.val
  rw [value.property] at small
  have kept : (BitVec.ofNat 128 (ofBigEndian value.val)).toNat = ofBigEndian value.val :=
    (BitVec.toNat_ofNat _ _).trans (Nat.mod_eq_of_lt small)
  have exact := bigEndian_ofBigEndian value.val
  rw [value.property] at exact
  rw [Record.chainIdBytes, kept, exact]

theorem accepts_fields {found : RecordFields} :
    Accepts (readMap .initial RecordFields.read) 0 found encoding ↔
      ∃ spelling : RecordSpelling, spelling.fields = found ∧ spelling.Fit ∧
        encoding = spelling.bytes := by
  refine Iff.trans (accepts_record_view fields Fit
    ⟨none, none, none, none, none, none, none, none, none, none, none, none⟩ schema_ascend
    (by decide) ?_ (by simp [schema]) ⟨by simp, by simp⟩ ?_) (and_iff_right (by decide))
  · intro key before after value fit unset accepts
    unfold RecordFields.read at accepts
    dsimp only at accepts
    split at accepts
    · rcases accepts_store.mp accepts with ⟨⟨_, body⟩, read, rfl⟩
      rcases accepts_spanned.mp read with ⟨rfl, item⟩
      exact ⟨{ before with body := some body }, rfl,
        { fit with body := by simpa using accepts_skip.mp item }, by simp [schema, Schema.Stores]⟩
    · rcases accepts_store.mp accepts with ⟨chainId, read, rfl⟩
      rcases accepts_byteArray.mp read with ⟨rfl, -⟩
      exact ⟨{ before with chainId := some (BitVec.ofNat 128 (ofBigEndian chainId.val)) }, rfl,
        { fit with }, by simp [schema, Schema.Stores, chainIdBytes_of]⟩
    · rcases accepts_store.mp accepts with ⟨grantId, read, rfl⟩
      rcases accepts_byteArray.mp read with ⟨rfl, -⟩
      exact ⟨{ before with grantId := some grantId }, rfl, { fit with },
        by simp [schema, Schema.Stores]⟩
    · rcases accepts_store.mp accepts with ⟨kind, read, rfl⟩
      rcases accepts_textAs.mp read with ⟨_, parsed, rfl, -⟩
      rcases Kind.parse_eq_some.mp parsed with rfl
      exact ⟨{ before with kind := some kind }, rfl, { fit with },
        by simp [schema, Schema.Stores]⟩
    · rcases accepts_store.mp accepts with ⟨mono, read, rfl⟩
      rcases accepts_u64.mp read with rfl
      exact ⟨{ before with mono := some mono }, rfl, { fit with }, by simp [schema, Schema.Stores]⟩
    · rcases accepts_store.mp accepts with ⟨prevHash, read, rfl⟩
      rcases accepts_byteArray.mp read with ⟨rfl, -⟩
      exact ⟨{ before with prevHash := some prevHash }, rfl, { fit with },
        by simp [schema, Schema.Stores]⟩
    · rcases accepts_store.mp accepts with ⟨principal, read, rfl⟩
      rcases accepts_text.mp read with ⟨rfl, fits⟩
      exact ⟨{ before with principal := some principal }, rfl,
        { fit with principal := by simpa }, by simp [schema, Schema.Stores]⟩
    · rcases accepts_store.mp accepts with ⟨reqId, read, rfl⟩
      rcases accepts_u64.mp read with rfl
      exact ⟨{ before with reqId := some reqId }, rfl, { fit with },
        by simp [schema, Schema.Stores]⟩
    · rcases accepts_store.mp accepts with ⟨seq, read, rfl⟩
      rcases accepts_u64.mp read with rfl
      exact ⟨{ before with seq := some seq }, rfl, { fit with }, by simp [schema, Schema.Stores]⟩
    · rcases accepts_store.mp accepts with ⟨serial, read, rfl⟩
      rcases accepts_u64.mp read with rfl
      exact ⟨{ before with serial := some serial }, rfl, { fit with },
        by simp [schema, Schema.Stores]⟩
    · rcases accepts_store.mp accepts with ⟨taskId, read, rfl⟩
      rcases accepts_byteArray.mp read with ⟨rfl, -⟩
      exact ⟨{ before with taskId := some taskId }, rfl, { fit with },
        by simp [schema, Schema.Stores]⟩
    · rcases accepts_store.mp accepts with ⟨ts, read, rfl⟩
      rcases accepts_u64.mp read with rfl
      exact ⟨{ before with ts := some ts }, rfl, { fit with }, by simp [schema, Schema.Stores]⟩
    · exact absurd accepts not_accepts_throw
  · rintro ⟨seq, ts, mono, kind, principal, grantId, taskId, chainId, reqId, serial, body, prevHash⟩
      fit
    refine Rows.store (fun ts => fields ⟨none, ts, none, none, none, none, none, none, none, none, none, none⟩)
      (fun ts _ => accepts_store.mpr ⟨ts, accepts_u64.mpr rfl, rfl⟩) ?_
    refine Rows.store (fun seq => fields ⟨seq, ts, none, none, none, none, none, none, none, none, none, none⟩)
      (fun seq _ => accepts_store.mpr ⟨seq, accepts_u64.mpr rfl, rfl⟩) ?_
    refine Rows.storeBytes (fun body => fields ⟨seq, ts, none, none, none, none, none, none, none, none, body, none⟩)
      (fun body found => accepts_store.mpr
        ⟨((), body), accepts_spanned.mpr ⟨rfl, accepts_skip.mpr (fit.body body found)⟩, rfl⟩) ?_
    refine Rows.store (fun kind => fields ⟨seq, ts, none, kind, none, none, none, none, none, none, body, none⟩)
      (fun kind _ => accepts_store.mpr ⟨kind, accepts_textAs.mpr
        ⟨kind.asStr, Kind.parse_asStr kind, rfl, by cases kind <;> decide⟩, rfl⟩) ?_
    refine Rows.store (fun mono => fields ⟨seq, ts, mono, kind, none, none, none, none, none, none, body, none⟩)
      (fun mono _ => accepts_store.mpr ⟨mono, accepts_u64.mpr rfl, rfl⟩) ?_
    refine Rows.store (fun reqId => fields ⟨seq, ts, mono, kind, none, none, none, none, reqId, none, body, none⟩)
      (fun reqId _ => accepts_store.mpr ⟨reqId, accepts_u64.mpr rfl, rfl⟩) ?_
    refine Rows.store (fun serial => fields ⟨seq, ts, mono, kind, none, none, none, none, reqId, serial, body, none⟩)
      (fun serial _ => accepts_store.mpr ⟨serial, accepts_u64.mpr rfl, rfl⟩) ?_
    refine Rows.store (fun taskId => fields ⟨seq, ts, mono, kind, none, none, taskId, none, reqId, serial, body, none⟩)
      (fun taskId _ => accepts_store.mpr
        ⟨taskId, accepts_byteArray.mpr ⟨rfl, by decide⟩, rfl⟩) ?_
    refine Rows.store (fun chainId => fields ⟨seq, ts, mono, kind, none, none, taskId, chainId, reqId, serial, body, none⟩)
      (fun chainId _ => accepts_store.mpr
        ⟨⟨Record.chainIdBytes chainId, bigEndian_length _ _⟩,
          accepts_byteArray.mpr ⟨rfl, by decide⟩, by simp [fields, record]⟩) ?_
    refine Rows.store (fun grantId => fields ⟨seq, ts, mono, kind, none, grantId, taskId, chainId, reqId, serial, body, none⟩)
      (fun grantId _ => accepts_store.mpr
        ⟨grantId, accepts_byteArray.mpr ⟨rfl, by decide⟩, rfl⟩) ?_
    refine Rows.store (fun prevHash => fields ⟨seq, ts, mono, kind, none, grantId, taskId, chainId, reqId, serial, body, prevHash⟩)
      (fun prevHash _ => accepts_store.mpr
        ⟨prevHash, accepts_byteArray.mpr ⟨rfl, by decide⟩, rfl⟩) ?_
    refine Rows.store (fun principal => fields ⟨seq, ts, mono, kind, principal, grantId, taskId, chainId, reqId, serial, body, prevHash⟩)
      (fun principal found => accepts_store.mpr
        ⟨principal, accepts_text.mpr ⟨rfl, fit.principal principal found⟩, rfl⟩) ?_
    exact .nil

structure Complete (spelling : RecordSpelling) : Prop where
  body : spelling.body.isSome
  kind : spelling.kind.isSome
  mono : spelling.mono.isSome
  prevHash : spelling.prevHash.isSome
  principal : spelling.principal.isSome
  seq : spelling.seq.isSome
  ts : spelling.ts.isSome

theorem rows_framed {spelling : RecordSpelling} (fit : spelling.Fit)
    (short : spelling.bytes.length < 2 ^ 64) :
    ∀ row ∈ presentRows (schema.rows spelling), Framed row.2 := by
  refine Framed.presentRows ?_ short
  simp only [schema, List.forall_mem_cons, Option.mem_def, Option.map_eq_some_iff]
  refine ⟨?_, ?_, ?_, ?_, ?_, ?_, ?_, ?_, ?_, ?_, ?_, ?_, by simp⟩
  case refine_3 => exact fun body found _ => (fit.body body found).framed
  all_goals
    rintro _ ⟨found, -, rfl⟩ short
  · exact .ofU64 _
  · exact .ofU64 _
  · exact .ofText short
  · exact .ofU64 _
  · exact .ofU64 _
  · exact .ofU64 _
  · exact .ofBytes (by rw [found.property]; decide)
  · exact .ofBytes (by rw [Record.chainIdBytes, bigEndian_length]; decide)
  · exact .ofBytes (by rw [found.property]; decide)
  · exact .ofBytes (by rw [found.property]; decide)
  · exact .ofText short

theorem few_rows (spelling : RecordSpelling) :
    (presentRows (schema.rows spelling)).length < 2 ^ 64 := by
  rw [← List.length_map Prod.fst]
  exact lt_of_le_of_lt (schema.rows_names spelling).length_le (by decide)

theorem complete_of_bytes_eq {spelling : RecordSpelling} {record : Record}
    (grantId : spelling.grantId = record.grantId) (taskId : spelling.taskId = record.taskId)
    (chainId : spelling.chainId = record.chainId) (reqId : spelling.reqId = record.reqId)
    (serial : spelling.serial = record.serial) (same : record.unhashed = spelling.bytes) :
    spelling.Complete := by
  rw [Record.unhashed_eq] at same
  have fewWritten : (presentRows (Record.schema.rows record)).length < 2 ^ 64 := by
    rw [← List.length_map Prod.fst]
    exact lt_of_le_of_lt (Record.schema.rows_names record).length_le (by decide)
  have counts := length_eq_of_mapBytes fewWritten spelling.few_rows same
  rw [length_presentRows, length_presentRows] at counts
  simp only [Schema.rows, schema, Record.schema, List.map_cons, List.map_nil, List.countP_cons,
    List.countP_nil, Option.isSome_map, Option.isSome_some, if_true, ← grantId, ← taskId,
    ← chainId, ← reqId, ← serial] at counts
  have atMost : ∀ {α : Type} (found : Option α), (if found.isSome then 1 else 0) ≤ 1 := by
    intro α found
    split <;> omega
  have present : ∀ {α : Type} {found : Option α}, (if found.isSome then 1 else 0) = 1 →
      found.isSome := by
    intro α found isOne
    split at isOne
    · assumption
    · cases isOne
  have ts := atMost spelling.ts
  have seq := atMost spelling.seq
  have body := atMost spelling.body
  have kind := atMost spelling.kind
  have mono := atMost spelling.mono
  have prevHash := atMost spelling.prevHash
  have principal := atMost spelling.principal
  constructor <;> apply present <;> omega

end RecordSpelling

namespace Record

/-- How `encode` spells a record. -/
def spelling (record : Record) : RecordSpelling :=
  ⟨record.seq, record.ts, record.mono, record.kind, record.principal, record.grantId,
    record.taskId, record.chainId, record.reqId, record.serial, record.body, record.prevHash⟩

theorem bytes_spelling (record : Record) : record.spelling.bytes = record.unhashed := by
  rw [unhashed_eq]
  rfl

theorem spelling_complete (record : Record) : record.spelling.Complete :=
  ⟨rfl, rfl, rfl, rfl, rfl, rfl, rfl⟩

theorem spelling_record {spelling : RecordSpelling} (complete : spelling.Complete) (hash : Digest) :
    (spelling.record hash).spelling = spelling := by
  rcases spelling with ⟨seq, ts, mono, kind, principal, grantId, taskId, chainId, reqId, serial,
    body, prevHash⟩
  rcases complete with ⟨hasBody, hasKind, hasMono, hasPrevHash, hasPrincipal, hasSeq, hasTs⟩
  rcases Option.isSome_iff_exists.mp hasBody with ⟨_, rfl⟩
  rcases Option.isSome_iff_exists.mp hasKind with ⟨_, rfl⟩
  rcases Option.isSome_iff_exists.mp hasMono with ⟨_, rfl⟩
  rcases Option.isSome_iff_exists.mp hasPrevHash with ⟨_, rfl⟩
  rcases Option.isSome_iff_exists.mp hasPrincipal with ⟨_, rfl⟩
  rcases Option.isSome_iff_exists.mp hasSeq with ⟨_, rfl⟩
  rcases Option.isSome_iff_exists.mp hasTs with ⟨_, rfl⟩
  rfl

theorem accepts_read {found : RecordFields} {bytes : Bytes} :
    Accepts read 0 found bytes ↔ ∃ fields encoding hash,
      Accepts (readMap .initial RecordFields.read) 0 fields encoding ∧
        found = { fields with record := { fields.record with hash } } ∧
        bytes = Writer.array 2 ++ encoding ++ Writer.bytes hash.val := by
  simp only [read, readHashed, accepts_bind, accepts_arrayLen, accepts_ite, accepts_byteArray,
    accepts_pure]
  constructor
  · rintro ⟨_, _, _, rfl, ⟨rfl, -⟩, (⟨-, failed⟩ | ⟨two, fields, encoding, _, rfl, accepts, hash, _, _,
      rfl, ⟨rfl, -⟩, rfl, rfl⟩)⟩
    · exact absurd failed not_accepts_throw
    · rw [not_not] at two
      subst two
      exact ⟨fields, encoding, hash, accepts, rfl, by simp⟩
  · rintro ⟨fields, encoding, hash, accepts, rfl, rfl⟩
    refine ⟨2, _, _, List.append_assoc _ _ _, ⟨rfl, by decide⟩, .inr ⟨by simp, fields, encoding, _, rfl,
      accepts, hash, _, [], (List.append_nil _).symm, ⟨rfl, by decide⟩, rfl, rfl⟩⟩

theorem decode_eq_ok_iff {bytes : Bytes} {record : Record} :
    decode bytes = .ok record ↔ ∃ spelling : RecordSpelling, spelling.kind.isSome ∧
      spelling.record record.hash = record ∧ spelling.Fit ∧
      bytes = Writer.array 2 ++ spelling.bytes ++ Writer.bytes record.hash.val := by
  have unfolded : decode bytes = decodeAll read bytes >>= fun fields =>
      if fields.seenKind then .ok fields.record else .error .type := by
    rw [decode]
    refine congrArg _ (funext fun fields => ?_)
    split <;> rfl
  rw [unfolded]
  constructor
  · intro success
    rcases ok_of_bind_ok success with ⟨found, isRead, checked⟩
    rcases accepts_read.mp (decodeAll_eq_ok.mp isRead) with ⟨_, encoding, hash, accepts, rfl, rfl⟩
    rcases RecordSpelling.accepts_fields.mp accepts with ⟨spelling, rfl, fit, rfl⟩
    split at checked
    · rename_i hasKind
      cases checked
      exact ⟨spelling, hasKind, rfl, fit, rfl⟩
    · cases checked
  · rintro ⟨spelling, hasKind, same, fit, rfl⟩
    have accepts := RecordSpelling.accepts_fields.mpr ⟨spelling, rfl, fit, rfl⟩
    rw [decodeAll_eq_ok.mpr (accepts_read.mpr ⟨_, _, record.hash, accepts, rfl, rfl⟩)]
    change (if spelling.kind.isSome then _ else _) = _
    rw [if_pos hasKind]
    exact congrArg Except.ok same

/-- The map of the bytes has every field a record always has. -/
def SpelledOut (bytes : Bytes) : Prop :=
  ∃ map rest, bytes = Writer.array 2 ++ map ++ rest ∧ Framed map ∧
    ∀ name ∈ ["body", "kind", "mono", "prev_hash", "principal", "seq", "ts"], HasKey map name

theorem encode_eq_iff_unhashed {record : Record} {map : Bytes} :
    record.encode = Writer.array 2 ++ map ++ Writer.bytes record.hash.val ↔
      record.unhashed = map := by
  rw [encode, List.append_left_inj, List.append_right_inj]

theorem hasKeys_iff {spelling : RecordSpelling} (fit : spelling.Fit)
    (short : spelling.bytes.length < 2 ^ 64) :
    (∀ name ∈ ["body", "kind", "mono", "prev_hash", "principal", "seq", "ts"],
      HasKey spelling.bytes name) ↔ spelling.Complete := by
  have framed := RecordSpelling.rows_framed fit short
  have has : ∀ {name get}, (name, get) ∈ RecordSpelling.schema →
      (HasKey spelling.bytes name ↔ (get spelling).isSome) :=
    fun member => hasKey_record RecordSpelling.schema_ascend framed short member
  have body := has (show ("body", fun spelling : RecordSpelling => spelling.body) ∈ _ by
    simp [RecordSpelling.schema])
  have kind := has (show ("kind", fun spelling : RecordSpelling =>
    spelling.kind.map fun kind => Writer.text kind.asStr) ∈ _ by simp [RecordSpelling.schema])
  have mono := has (show ("mono", fun spelling : RecordSpelling =>
    spelling.mono.map Writer.u64) ∈ _ by simp [RecordSpelling.schema])
  have prevHash := has (show ("prev_hash", fun spelling : RecordSpelling =>
    spelling.prevHash.map fun hash => Writer.bytes hash.val) ∈ _ by simp [RecordSpelling.schema])
  have principal := has (show ("principal", fun spelling : RecordSpelling =>
    spelling.principal.map Writer.text) ∈ _ by simp [RecordSpelling.schema])
  have seq := has (show ("seq", fun spelling : RecordSpelling =>
    spelling.seq.map Writer.u64) ∈ _ by simp [RecordSpelling.schema])
  have ts := has (show ("ts", fun spelling : RecordSpelling =>
    spelling.ts.map Writer.u64) ∈ _ by simp [RecordSpelling.schema])
  simp only [Option.isSome_map] at body kind mono prevHash principal seq ts
  simp only [List.forall_mem_cons, body, kind, mono, prevHash, principal, seq, ts]
  constructor
  · rintro ⟨hasBody, hasKind, hasMono, hasPrevHash, hasPrincipal, hasSeq, hasTs, -⟩
    exact ⟨hasBody, hasKind, hasMono, hasPrevHash, hasPrincipal, hasSeq, hasTs⟩
  · intro complete
    exact ⟨complete.body, complete.kind, complete.mono, complete.prevHash, complete.principal,
      complete.seq, complete.ts, by simp⟩

theorem decode_encode_iff {record : Record} (short : record.encode.length < 2 ^ 64) :
    decode record.encode = .ok record ↔ Item 1 record.body := by
  constructor
  · intro decoded
    rcases decode_eq_ok_iff.mp decoded with ⟨spelling, -, same, fit, written⟩
    have complete := RecordSpelling.complete_of_bytes_eq (congrArg grantId same)
      (congrArg taskId same) (congrArg chainId same) (congrArg reqId same) (congrArg serial same)
      (encode_eq_iff_unhashed.mp written)
    rcases Option.isSome_iff_exists.mp complete.body with ⟨body, found⟩
    have isBody : body = record.body := by
      rw [← same, RecordSpelling.record, found]
      rfl
    exact isBody ▸ fit.body body found
  · exact fun item => decode_encode item short

theorem encode_eq_iff {bytes : Bytes} {record : Record} (short : bytes.length < 2 ^ 64)
    (decoded : decode bytes = .ok record) : record.encode = bytes ↔ SpelledOut bytes := by
  rcases decode_eq_ok_iff.mp decoded with ⟨spelling, -, same, fit, rfl⟩
  have shortMap : spelling.bytes.length < 2 ^ 64 := by
    simp only [List.length_append] at short
    omega
  rw [encode_eq_iff_unhashed]
  constructor
  · intro written
    have complete := RecordSpelling.complete_of_bytes_eq (congrArg grantId same)
      (congrArg taskId same) (congrArg chainId same) (congrArg reqId same) (congrArg serial same)
      written
    exact ⟨_, _, rfl, .ofMap (RecordSpelling.rows_framed fit shortMap) shortMap,
      (hasKeys_iff fit shortMap).mpr complete⟩
  · rintro ⟨map, rest, split, framed, hasKeys⟩
    rw [List.append_assoc, List.append_assoc, List.append_right_inj] at split
    have isMap := (Framed.append_inj (.ofMap (RecordSpelling.rows_framed fit shortMap) shortMap)
      framed split).1
    rw [← isMap] at hasKeys
    have complete := (hasKeys_iff fit shortMap).mp hasKeys
    rw [← bytes_spelling, ← same, spelling_record complete]

/-- A record survives its encoding exactly if its body is one item; bytes that decode
are the record's encoding exactly if they are spelled out. -/
theorem bytes_exact_iff (record : Record) :
    (record.encode.length < 2 ^ 64 →
      (decode record.encode = .ok record ↔ Item 1 record.body)) ∧
    ∀ bytes : Bytes, bytes.length < 2 ^ 64 → decode bytes = .ok record →
      (record.encode = bytes ↔ SpelledOut bytes) :=
  ⟨decode_encode_iff, fun _ => encode_eq_iff⟩

def blank : Record := about .anchor "" none [0xf6]

theorem blank_item : Item 1 blank.body :=
  show Item 1 (Writer.head majorSimple 22) from .simple (by decide) (by decide)

theorem bytes_exact_blank :
    decode blank.encode = .ok blank ∧ (blank.encode = blank.encode ↔ SpelledOut blank.encode) := by
  have short : blank.encode.length < 2 ^ 64 := by decide +kernel
  have decoded := ((bytes_exact_iff blank).1 short).mpr blank_item
  exact ⟨decoded, (bytes_exact_iff blank).2 _ short decoded⟩

/-- The same record without its clocks and its place in the chain. -/
def terse : RecordSpelling :=
  { blank.spelling with seq := none, ts := none, mono := none, prevHash := none }

/-- Two byte strings decode to the blank record. -/
theorem terse_decodes_to_blank :
    let bytes := Writer.array 2 ++ terse.bytes ++ Writer.bytes genesis.val
    decode bytes = .ok blank ∧ blank.encode ≠ bytes := by
  constructor
  · refine decode_eq_ok_iff.mpr ⟨terse, rfl, rfl, ⟨?_, ?_⟩, rfl⟩
    · rintro _ ⟨⟩
      decide
    · rintro _ ⟨⟩
      exact blank_item
  · intro same
    exact absurd (congrArg List.length same) (by decide +kernel)

end Record

end EclipseOS.Policyd
