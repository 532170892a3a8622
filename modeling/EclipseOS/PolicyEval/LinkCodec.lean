import EclipseOS.PolicyEval.Emission
import EclipseOS.PolicyEval.LinkFields

/-! # Link messages

A message is a tag, the version and the fields its tag allows. Both directions read
back what they write, and what they read is what was written, up to the clamp on the
length of a tail. -/

namespace EclipseOS.PolicyEval

open Foundation Cbor

/-! ## Shapes -/

abbrev FieldEntry := Entry fun name : FieldName => name.kind.Value

private theorem testBit_foldl (flags : List Bool) (start bits i : Nat) :
    ((flags.zipIdx start).foldl
        (fun bits flag => if flag.1 then bits ||| 1 <<< flag.2 else bits) bits).testBit i =
      (bits.testBit i || (decide (start ≤ i) && flags.getD (i - start) false)) := by
  induction flags generalizing start bits with
  | nil => simp
  | cons flag flags induction =>
    rw [List.zipIdx_cons, List.foldl_cons, induction]
    have first : (if flag then bits ||| 1 <<< start else bits).testBit i =
        (bits.testBit i || (flag && decide (i = start))) := by
      cases flag
      · simp
      · simp only [if_true, Nat.testBit_or, Nat.testBit_shiftLeft, Bool.true_and]
        congr 1
        rw [Bool.eq_iff_iff]
        simp only [ge_iff_le, Bool.and_eq_true, decide_eq_true_eq,
          Nat.testBit_one_eq_true_iff_self_eq_zero]
        omega
    rw [first]
    rcases Nat.lt_trichotomy i start with before | same | after
    · simp [Nat.not_le.mpr before, Nat.ne_of_lt before, show ¬start + 1 ≤ i by omega]
    · subst same
      simp [show ¬i + 1 ≤ i by omega]
    · have split : i - start = (i - (start + 1)) + 1 := by omega
      simp [split, Nat.le_of_lt after, Nat.ne_of_gt after, Nat.succ_le_of_lt after]

namespace Fields

theorem testBit_names (fields : Fields) (i : Nat) :
    fields.names.testBit i = (numbered.map fun name => (fields name).isSome).getD i false := by
  rw [names, testBit_foldl]
  simp

/-- The names are these, the tag and the version, and no field besides the wanted ones. -/
structure Allows (want : Nat) (listed : List FieldName) : Prop where
  nodup : listed.Nodup
  tag : .m ∈ listed
  version : .v ∈ listed
  wanted : (numbered.map fun name => decide (name ∈ listed)).zipIdx.foldl
    (fun bits flag => if flag.1 then bits ||| 1 <<< flag.2 else bits) 0 = want

instance (want : Nat) (listed : List FieldName) : Decidable (Allows want listed) :=
  decidable_of_iff (listed.Nodup ∧ .m ∈ listed ∧ .v ∈ listed ∧
    (numbered.map fun name => decide (name ∈ listed)).zipIdx.foldl
      (fun bits flag => if flag.1 then bits ||| 1 <<< flag.2 else bits) 0 = want)
    ⟨fun allows => ⟨allows.1, allows.2.1, allows.2.2.1, allows.2.2.2⟩,
      fun allows => ⟨allows.nodup, allows.tag, allows.version, allows.wanted⟩⟩

theorem shape_eq_ok {fields : Fields} {want : Nat} :
    shape fields want = .ok () ↔ fields.names = want := by
  rw [shape]
  split <;> simp [*]

theorem shape_ofEntries {want : Nat} {entries : List FieldEntry}
    (allows : Allows want (entries.map Sigma.fst)) :
    shape (Slots.ofEntries entries) want = .ok () := by
  rw [shape_eq_ok, ← allows.wanted, names]
  simp only [Slots.isSome_ofEntries]

theorem numbered_or (name : FieldName) : name = .m ∨ name = .v ∨ name ∈ numbered := by
  cases name <;> decide

theorem eq_ofEntries_of_shape {fields : Fields} {want : Nat} {entries : List FieldEntry}
    (allows : Allows want (entries.map Sigma.fst)) (shaped : shape fields want = .ok ())
    (values : ∀ entry ∈ entries, fields entry.1 = some entry.2) :
    fields = Slots.ofEntries entries := by
  refine Slots.eq_ofEntries allows.nodup (fun name isSet => ?_) values
  rcases numbered_or name with rfl | rfl | isNumbered
  · exact allows.tag
  · exact allows.version
  · rcases List.getElem_of_mem isNumbered with ⟨i, within, rfl⟩
    have same := congrArg (Nat.testBit · i) (shape_eq_ok.mp shaped)
    simp only [← allows.wanted, testBit_names, testBit_foldl] at same
    simp [within, isSet] at same
    simpa using same

end Fields

/-! ## Steps of a decoder -/

theorem required_eq_ok {α : Type} {found : Option α} {value : α} :
    required found = .ok value ↔ found = some value := by
  cases found <;> simp [required]

theorem checked_eq_ok {passes : String → Bool} {found : Option String} {text : String} :
    checked passes found = .ok text ↔ found = some text ∧ passes text := by
  rw [checked, bind_eq_ok]
  simp only [required_eq_ok]
  constructor
  · rintro ⟨value, rfl, passed⟩
    split at passed
    · cases passed
      exact ⟨rfl, by assumption⟩
    · cases passed
  · rintro ⟨rfl, passed⟩
    exact ⟨text, rfl, if_pos passed⟩

theorem exclusive_eq_ok {continuation resumes : String} {result : Unit} :
    exclusive continuation resumes = .ok result ↔ continuation = "" ∨ resumes = "" := by
  rw [exclusive]
  split <;> grind

theorem DeferAnswer.parse_eq_ok {found : Option UInt64} {answer : DeferAnswer} :
    DeferAnswer.parse found = .ok answer ↔ found = some answer.code := by
  constructor
  · intro parsed
    unfold DeferAnswer.parse at parsed
    split at parsed <;> cases parsed <;> rfl
  · rintro rfl
    cases answer <;> rfl

theorem CancelMode.parse_eq_ok {text : String} {mode : CancelMode} :
    CancelMode.parse text = .ok mode ↔ text = mode.asStr := by
  constructor
  · intro parsed
    unfold CancelMode.parse at parsed
    split at parsed <;> cases parsed <;> rfl
  · rintro rfl
    cases mode <;> rfl

theorem ofBytes_sig_eq_some {n : Nat} {found : Option Bytes} {value : FixedBytes n} :
    found.bind FixedBytes.ofBytes = some value ↔ found = some value.val := by
  simp only [Option.bind_eq_some_iff, FixedBytes.ofBytes_eq_some]
  constructor
  · rintro ⟨_, rfl, same⟩
    exact congrArg some same.symm
  · intro same
    exact ⟨_, same, rfl⟩

/-! ## Reading the fields back -/

theorem readFields_eq_ok {bytes : Bytes} {fields : Fields} :
    readFields bytes = .ok fields ↔ bytes = mapBytes (presentRows (Fields.schema.rows fields)) ∧
      fields.Fit ∧ fields .v = some Link.messageVersion := by
  have checked : ∀ found : Fields, (if found .v ≠ some Link.messageVersion then
      (throw .shape : Except MessageError Fields) else pure found) = .ok fields ↔
        found = fields ∧ found .v = some Link.messageVersion := by
    intro found
    split
    · rename_i other
      constructor
      · intro failed
        cases failed
      · exact fun same => absurd same.2 other
    · rename_i same
      rw [not_not] at same
      exact ⟨fun found => ⟨Except.ok.inj found, same⟩, fun found => congrArg _ found.1⟩
  simp only [readFields, bind_eq_ok, decodeAll_eq_ok, Fields.accepts_fields, checked]
  constructor
  · rintro ⟨_, ⟨rfl, fit⟩, rfl, versioned⟩
    exact ⟨rfl, fit, versioned⟩
  · rintro ⟨rfl, fit, versioned⟩
    exact ⟨fields, ⟨rfl, fit⟩, rfl, versioned⟩

def FieldKind.Few : (kind : FieldKind) → kind.Value → Prop
  | .records => fun records => records.length ≤ 256
  | _ => fun _ => True

theorem fits_of_short : ∀ {kind : FieldKind} {value : kind.Value},
    (kind.write value).length < 2 ^ 64 → kind.Few value → kind.Fits value
  | .uint, _, _, _ => trivial
  | .text, _, short, _ => lt_of_le_of_lt (length_le_text _) short
  | .bytes, _, short, _ => lt_of_le_of_lt (by simp [FieldKind.write, Writer.bytes]) short
  | .bool, _, _, _ => trivial
  | .records, records, short, few => by
      refine ⟨few, fun record member => ?_⟩
      have inRecord : ("kind", some (Writer.text record.kind)) ∈ TailFields.schema.rows
          ⟨some record.kind, record.reqId, some record.atNs⟩ := by
        simp [TailFields.schema, Schema.rows]
      have whole : (encodeTail record).length ≤ (FieldKind.write .records records).length :=
        length_le_arrayOf member
      rw [encodeTail_eq] at whole
      exact lt_of_le_of_lt (length_le_text record.kind)
        (lt_of_le_of_lt ((length_le_record inRecord).trans whole) short)

/-- The bytes of a message with these entries. -/
def entriesBytes (entries : List FieldEntry) : Bytes :=
  mapBytes (presentRows (Fields.schema.rows (Slots.ofEntries entries)))

theorem finish_entries {want : Nat} {entries : List FieldEntry}
    (allows : Fields.Allows want (entries.map Sigma.fst)) :
    (MapBuilder.ofRows (entries.map fun entry =>
        (entry.1.key, some (entry.1.kind.write entry.2)))).finish = entriesBytes entries :=
  finish_slots FieldName.key (fun name => name.kind.write) FieldName.ascending_ascend
    FieldName.key_injective FieldName.mem_ascending allows.nodup

theorem entries_fit {want : Nat} {entries : List FieldEntry}
    (allows : Fields.Allows want (entries.map Sigma.fst))
    (few : ∀ entry ∈ entries, entry.1.kind.Few entry.2)
    (short : (entriesBytes entries).length < 2 ^ 64) :
    Fields.Fit (Slots.ofEntries entries) := by
  constructor
  · intro name value isSet
    have row : (name.key, name.kind.write value) ∈
        presentRows (Fields.schema.rows (Slots.ofEntries entries)) :=
      mem_slotRows.mpr ⟨name, FieldName.mem_ascending name, value, isSet, rfl⟩
    exact fits_of_short (lt_of_le_of_lt (length_le_mapBytes row) short)
      (few _ ((Slots.ofEntries_eq_some allows.nodup).mp isSet))
  · intro untagged
    have tagged := Slots.isSome_ofEntries entries .m
    rw [untagged, decide_eq_true allows.tag] at tagged
    cases tagged

/-! ## From `policyd` -/

namespace FromPolicyd

/-- The tag, the version and the fields of a message, in the order written. -/
def entries : FromPolicyd → List FieldEntry
  | table bytes sig =>
    [⟨.m, "table"⟩, ⟨.v, Link.messageVersion⟩, ⟨.sig, sig.val⟩, ⟨.table, bytes⟩]
  | deferAnswer req answer =>
    [⟨.m, "defer_answer"⟩, ⟨.v, Link.messageVersion⟩, ⟨.req, req⟩, ⟨.answer, answer.code⟩]
  | minted req grant =>
    [⟨.m, "minted"⟩, ⟨.v, Link.messageVersion⟩, ⟨.req, req⟩, ⟨.grant, grant⟩]
  | mintRefused req => [⟨.m, "mint_refused"⟩, ⟨.v, Link.messageVersion⟩, ⟨.req, req⟩]
  | revoked principal => [⟨.m, "revoked"⟩, ⟨.v, Link.messageVersion⟩, ⟨.principal, principal⟩]
  | auditRecords req records =>
    [⟨.m, "audit_records"⟩, ⟨.v, Link.messageVersion⟩, ⟨.req, req⟩, ⟨.records, records⟩]
  | preview req id display =>
    [⟨.m, "preview"⟩, ⟨.v, Link.messageVersion⟩, ⟨.req, req⟩, ⟨.preview, id⟩,
      ⟨.display, display⟩]
  | taskCreated req task =>
    [⟨.m, "task_created"⟩, ⟨.v, Link.messageVersion⟩, ⟨.req, req⟩, ⟨.task, task⟩]
  | installReview req review display =>
    [⟨.m, "install_review"⟩, ⟨.v, Link.messageVersion⟩, ⟨.req, req⟩, ⟨.review, review⟩,
      ⟨.display, display⟩]
  | done req => [⟨.m, "done"⟩, ⟨.v, Link.messageVersion⟩, ⟨.req, req⟩]
  | refused req reason =>
    [⟨.m, "refused"⟩, ⟨.v, Link.messageVersion⟩, ⟨.req, req⟩, ⟨.reason, reason⟩]
  | taskState task state reason =>
    [⟨.m, "task_state"⟩, ⟨.v, Link.messageVersion⟩, ⟨.task, task⟩, ⟨.state, state⟩,
      ⟨.reason, reason⟩]
  | provision task principal package version statement deadlineMs grant continuation resumes
      account =>
      [⟨.m, "provision"⟩, ⟨.v, Link.messageVersion⟩, ⟨.account, account⟩, ⟨.resumes, resumes⟩,
        ⟨.task, task⟩, ⟨.grant, grant⟩, ⟨.package, package⟩, ⟨.version, version⟩,
        ⟨.deadline, deadlineMs⟩, ⟨.principal, principal⟩, ⟨.statement, statement⟩,
        ⟨.continuation, continuation⟩]

/-- The fields besides the tag and the version, as the decoder's shape check names them. -/
def want : FromPolicyd → Nat
  | table .. => fSig ||| fTable
  | deferAnswer .. => fReq ||| fAnswer
  | minted .. => fReq ||| fGrant
  | mintRefused .. => fReq
  | revoked .. => fPrincipal
  | auditRecords .. => fReq ||| fRecords
  | preview .. => fReq ||| fPreview ||| fDisplay
  | taskCreated .. => fReq ||| fTask
  | installReview .. => fReq ||| fReview ||| fDisplay
  | done .. => fReq
  | refused .. => fReq ||| fReason
  | taskState .. => fTask ||| fState ||| fReason
  | provision .. => fTask ||| fGrant ||| fPackage ||| fVersion ||| fDeadline ||| fPrincipal |||
      fStatement ||| fContinuation ||| fResumes ||| fAccount

theorem allows (message : FromPolicyd) :
    Fields.Allows message.want (message.entries.map Sigma.fst) := by
  cases message <;> simp only [entries, want, List.map_cons, List.map_nil] <;> decide

def fields (message : FromPolicyd) : Fields := Slots.ofEntries message.entries

/-- What the decoder checks of a message's fields. -/
def Valid : FromPolicyd → Prop
  | revoked principal => principalOk principal
  | auditRecords _ records => records.length ≤ 256
  | taskCreated _ task => taskIdOk task
  | taskState task _ _ => taskIdOk task
  | provision task principal _ _ _ _ _ continuation resumes account =>
    (continuation = "" ∨ resumes = "") ∧ taskIdOk task ∧ principalOk principal ∧
      accountOk account
  | _ => True

theorem of_ofFields {fields : Fields} {message : FromPolicyd}
    (versioned : fields .v = some Link.messageVersion)
    (few : ∀ records, fields .records = some records → RecordsFit records)
    (decoded : ofFields fields = .ok message) : fields = message.fields ∧ message.Valid := by
  have shaped : shape fields message.want = .ok () →
      (∀ entry ∈ message.entries, fields entry.1 = some entry.2) → fields = message.fields :=
    Fields.eq_ofEntries_of_shape message.allows
  rw [ofFields, bind_eq_ok] at decoded
  rcases decoded with ⟨tag, hasTag, decoded⟩
  rw [required_eq_ok] at hasTag
  split at decoded <;> try
    simp only [bind_eq_ok, required_eq_ok, ofBytes_sig_eq_some, DeferAnswer.parse_eq_ok, principal,
      account, taskId, checked_eq_ok] at decoded
  · rcases decoded with ⟨⟨⟩, isShaped, sig, hasSig, bytes, hasTable, ⟨⟩⟩
    exact ⟨shaped isShaped (by simp [entries, *]), trivial⟩
  · rcases decoded with ⟨⟨⟩, isShaped, answer, hasAnswer, req, hasReq, ⟨⟩⟩
    exact ⟨shaped isShaped (by simp [entries, *]), trivial⟩
  · rcases decoded with ⟨⟨⟩, isShaped, req, hasReq, grant, hasGrant, ⟨⟩⟩
    exact ⟨shaped isShaped (by simp [entries, *]), trivial⟩
  · rcases decoded with ⟨⟨⟩, isShaped, req, hasReq, ⟨⟩⟩
    exact ⟨shaped isShaped (by simp [entries, *]), trivial⟩
  · rcases decoded with ⟨⟨⟩, isShaped, principal, ⟨hasPrincipal, ok⟩, ⟨⟩⟩
    exact ⟨shaped isShaped (by simp [entries, *]), ok⟩
  · rcases decoded with ⟨⟨⟩, isShaped, req, hasReq, records, hasRecords, ⟨⟩⟩
    exact ⟨shaped isShaped (by simp [entries, *]), (few records hasRecords).few⟩
  · rcases decoded with ⟨⟨⟩, isShaped, req, hasReq, id, hasPreview, display, hasDisplay, ⟨⟩⟩
    exact ⟨shaped isShaped (by simp [entries, *]), trivial⟩
  · rcases decoded with ⟨⟨⟩, isShaped, req, hasReq, task, ⟨hasTask, ok⟩, ⟨⟩⟩
    exact ⟨shaped isShaped (by simp [entries, *]), ok⟩
  · rcases decoded with ⟨⟨⟩, isShaped, req, hasReq, review, hasReview, display, hasDisplay, ⟨⟩⟩
    exact ⟨shaped isShaped (by simp [entries, *]), trivial⟩
  · rcases decoded with ⟨⟨⟩, isShaped, req, hasReq, ⟨⟩⟩
    exact ⟨shaped isShaped (by simp [entries, *]), trivial⟩
  · rcases decoded with ⟨⟨⟩, isShaped, req, hasReq, reason, hasReason, ⟨⟩⟩
    exact ⟨shaped isShaped (by simp [entries, *]), trivial⟩
  · rcases decoded with ⟨⟨⟩, isShaped, task, ⟨hasTask, ok⟩, state, hasState, reason, hasReason, ⟨⟩⟩
    exact ⟨shaped isShaped (by simp [entries, *]), ok⟩
  · rcases decoded with ⟨⟨⟩, isShaped, continuation, hasContinuation, resumes, hasResumes, ⟨⟩, apart,
      task, ⟨hasTask, taskOk⟩, principal, ⟨hasPrincipal, isPrincipal⟩, package, hasPackage, version,
      hasVersion, statement, hasStatement, deadline, hasDeadline, grant, hasGrant, account,
      ⟨hasAccount, isAccount⟩, ⟨⟩⟩
    exact ⟨shaped isShaped (by simp [entries, *]), exclusive_eq_ok.mp apart, taskOk, isPrincipal,
      isAccount⟩
  · cases decoded

theorem ofFields_fields {message : FromPolicyd} (valid : message.Valid) :
    ofFields message.fields = .ok message := by
  have shaped := Fields.shape_ofEntries message.allows
  have values : ∀ entry ∈ message.entries, message.fields entry.1 = some entry.2 :=
    fun entry member => (Slots.ofEntries_eq_some message.allows.nodup).mpr member
  change shape message.fields message.want = _ at shaped
  generalize message.fields = fields at shaped values
  cases message <;>
    simp_all [ofFields, bind_eq_ok, map_eq_ok, required_eq_ok, DeferAnswer.parse_eq_ok,
      FixedBytes.ofBytes_eq_some, principal, account, taskId, checked_eq_ok, exclusive_eq_ok, entries,
      want, Valid]

theorem encode_eq (message : FromPolicyd) : message.encode = entriesBytes message.entries := by
  rw [← finish_entries message.allows]
  cases message <;> rfl

theorem few_records {message : FromPolicyd} (valid : message.Valid) :
    ∀ entry ∈ message.entries, entry.1.kind.Few entry.2 := by
  cases message <;> simp_all [entries, Valid, FieldKind.Few]

theorem decode_eq_ok {bytes : Bytes} {message : FromPolicyd} :
    decode bytes = .ok message ↔
      bytes = message.encode ∧ message.Valid ∧ message.fields.Fit := by
  simp only [decode, bind_eq_ok, readFields_eq_ok, encode_eq]
  constructor
  · rintro ⟨fields, ⟨rfl, fit, versioned⟩, decoded⟩
    rcases of_ofFields versioned (fit.fits .records) decoded with ⟨rfl, valid⟩
    exact ⟨rfl, valid, fit⟩
  · rintro ⟨rfl, valid, fit⟩
    have versioned : message.fields .v = some Link.messageVersion := by
      cases message <;> rfl
    exact ⟨message.fields, ⟨rfl, fit, versioned⟩, ofFields_fields valid⟩

theorem decode_encode {message : FromPolicyd} (valid : message.Valid)
    (short : message.encode.length < 2 ^ 64) : decode message.encode = .ok message := by
  refine decode_eq_ok.mpr ⟨rfl, valid, ?_⟩
  rw [encode_eq] at short
  exact entries_fit message.allows (few_records valid) short

end FromPolicyd

/-! ## To `policyd` -/

namespace ToPolicyd

def entries : ToPolicyd → List FieldEntry
  | defer req principal capability rule =>
    [⟨.m, "defer"⟩, ⟨.v, Link.messageVersion⟩, ⟨.req, req⟩, ⟨.rule, rule⟩,
      ⟨.principal, principal⟩, ⟨.capability, capability⟩]
  | mint req principal scope unattended =>
    [⟨.m, "mint"⟩, ⟨.v, Link.messageVersion⟩, ⟨.req, req⟩, ⟨.scope, scope⟩,
      ⟨.principal, principal⟩, ⟨.unattended, unattended⟩]
  | revoke principal => [⟨.m, "revoke"⟩, ⟨.v, Link.messageVersion⟩, ⟨.principal, principal⟩]
  | terminate principal => [⟨.m, "terminate"⟩, ⟨.v, Link.messageVersion⟩, ⟨.principal, principal⟩]
  | auditTail req principal n =>
    [⟨.m, "audit_tail"⟩, ⟨.v, Link.messageVersion⟩, ⟨.n, n⟩, ⟨.req, req⟩,
      ⟨.principal, principal⟩]
  | previewTask req slot package statement deadlineMs narrowing continuation resumes account =>
    [⟨.m, "preview_task"⟩, ⟨.v, Link.messageVersion⟩, ⟨.account, account⟩, ⟨.resumes, resumes⟩,
      ⟨.req, req⟩, ⟨.slot, slot⟩, ⟨.package, package⟩, ⟨.deadline, deadlineMs⟩,
      ⟨.narrowing, narrowing⟩, ⟨.statement, statement⟩, ⟨.continuation, continuation⟩]
  | createTask req slot preview =>
    [⟨.m, "create_task"⟩, ⟨.v, Link.messageVersion⟩, ⟨.req, req⟩, ⟨.slot, slot⟩,
      ⟨.preview, preview⟩]
  | unpauseTask req slot task =>
    [⟨.m, "unpause_task"⟩, ⟨.v, Link.messageVersion⟩, ⟨.req, req⟩, ⟨.slot, slot⟩, ⟨.task, task⟩]
  | installBegin req path =>
    [⟨.m, "install_begin"⟩, ⟨.v, Link.messageVersion⟩, ⟨.req, req⟩, ⟨.path, path⟩]
  | installAnswer review approve =>
    [⟨.m, "install_answer"⟩, ⟨.v, Link.messageVersion⟩, ⟨.review, review⟩, ⟨.approve, approve⟩]
  | pauseTask req task =>
    [⟨.m, "pause_task"⟩, ⟨.v, Link.messageVersion⟩, ⟨.req, req⟩, ⟨.task, task⟩]
  | cancelTask req task mode =>
    [⟨.m, "cancel_task"⟩, ⟨.v, Link.messageVersion⟩, ⟨.req, req⟩, ⟨.task, task⟩,
      ⟨.mode, mode.asStr⟩]
  | exited req task reason =>
    [⟨.m, "exited"⟩, ⟨.v, Link.messageVersion⟩, ⟨.req, req⟩, ⟨.task, task⟩, ⟨.reason, reason⟩]

def want : ToPolicyd → Nat
  | defer .. => fReq ||| fRule ||| fPrincipal ||| fCapability
  | mint .. => fReq ||| fScope ||| fPrincipal ||| fUnattended
  | revoke .. => fPrincipal
  | terminate .. => fPrincipal
  | auditTail .. => fN ||| fReq ||| fPrincipal
  | previewTask .. => fReq ||| fSlot ||| fPackage ||| fDeadline ||| fNarrowing ||| fStatement |||
      fContinuation ||| fResumes ||| fAccount
  | createTask .. => fReq ||| fSlot ||| fPreview
  | unpauseTask .. => fReq ||| fSlot ||| fTask
  | installBegin .. => fReq ||| fPath
  | installAnswer .. => fReview ||| fApprove
  | pauseTask .. => fReq ||| fTask
  | cancelTask .. => fReq ||| fTask ||| fMode
  | exited .. => fReq ||| fTask ||| fReason

theorem allows (message : ToPolicyd) :
    Fields.Allows message.want (message.entries.map Sigma.fst) := by
  cases message <;> simp only [entries, want, List.map_cons, List.map_nil] <;> decide

def fields (message : ToPolicyd) : Fields := Slots.ofEntries message.entries

/-- What the decoder refuses a message's fields for. -/
def Passes : ToPolicyd → Prop
  | defer _ principal _ _ => principalOk principal
  | mint _ principal _ _ => principalOk principal
  | revoke principal => principalOk principal
  | terminate principal => principalOk principal
  | auditTail _ principal _ => principalOk principal
  | previewTask _ _ _ _ _ _ continuation resumes account =>
    (continuation = "" ∨ resumes = "") ∧ accountOk account
  | unpauseTask _ _ task => taskIdOk task
  | pauseTask _ task => taskIdOk task
  | cancelTask _ task _ => taskIdOk task
  | exited _ task reason => (reason = "completed" ∨ reason = "failed") ∧ taskIdOk task
  | _ => True

/-- What the decoder makes of a message: nobody is sent a longer tail. -/
def clamped : ToPolicyd → ToPolicyd
  | auditTail req principal n => auditTail req principal (min n tailLimit)
  | message => message

/-- The field rules, with the tail asked for within its limit. -/
def Valid (message : ToPolicyd) : Prop :=
  message.Passes ∧ ∀ req principal n, message = auditTail req principal n → n ≤ tailLimit

theorem clamped_of_valid {message : ToPolicyd} (valid : message.Valid) :
    message.clamped = message := by
  cases message with
  | auditTail req principal n =>
    have within := valid.2 req principal n rfl
    rw [clamped, show min n tailLimit = n from if_pos within]
  | _ => rfl

theorem of_ofFields {fields : Fields} {message : ToPolicyd}
    (versioned : fields .v = some Link.messageVersion) (decoded : ofFields fields = .ok message) :
    ∃ written : ToPolicyd, written.clamped = message ∧ fields = written.fields ∧ written.Passes := by
  have shaped : ∀ written : ToPolicyd, shape fields written.want = .ok () →
      (∀ entry ∈ written.entries, fields entry.1 = some entry.2) → fields = written.fields :=
    fun written => Fields.eq_ofEntries_of_shape written.allows
  rw [ofFields, bind_eq_ok] at decoded
  rcases decoded with ⟨tag, hasTag, decoded⟩
  rw [required_eq_ok] at hasTag
  split at decoded <;> try
    simp only [bind_eq_ok, required_eq_ok, CancelMode.parse_eq_ok, principal, account, taskId,
      checked_eq_ok] at decoded
  · rcases decoded with ⟨⟨⟩, isShaped, req, hasReq, principal, ⟨hasPrincipal, ok⟩, capability,
      hasCapability, rule, hasRule, ⟨⟩⟩
    exact ⟨_, rfl, shaped (.defer ..) isShaped (by simp [entries, *]), ok⟩
  · rcases decoded with ⟨⟨⟩, isShaped, req, hasReq, principal, ⟨hasPrincipal, ok⟩, scope, hasScope,
      unattended, hasUnattended, ⟨⟩⟩
    exact ⟨_, rfl, shaped (.mint ..) isShaped (by simp [entries, *]), ok⟩
  · rcases decoded with ⟨⟨⟩, isShaped, principal, ⟨hasPrincipal, ok⟩, ⟨⟩⟩
    exact ⟨_, rfl, shaped (.revoke _) isShaped (by simp [entries, *]), ok⟩
  · rcases decoded with ⟨⟨⟩, isShaped, principal, ⟨hasPrincipal, ok⟩, ⟨⟩⟩
    exact ⟨_, rfl, shaped (.terminate _) isShaped (by simp [entries, *]), ok⟩
  · rcases decoded with ⟨⟨⟩, isShaped, req, hasReq, principal, ⟨hasPrincipal, ok⟩, n, hasN, ⟨⟩⟩
    exact ⟨.auditTail req principal n, rfl,
      shaped (.auditTail ..) isShaped (by simp [entries, *]), ok⟩
  · rcases decoded with ⟨⟨⟩, isShaped, ⟨⟩, apart, req, hasReq, slot, hasSlot, package, hasPackage,
      statement, hasStatement, deadline, hasDeadline, narrowing, hasNarrowing, continuation,
      hasContinuation, resumes, hasResumes, account, ⟨hasAccount, isAccount⟩, ⟨⟩⟩
    rw [hasContinuation, hasResumes] at apart
    exact ⟨_, rfl, shaped (.previewTask ..) isShaped (by simp [entries, *]),
      exclusive_eq_ok.mp apart, isAccount⟩
  · rcases decoded with ⟨⟨⟩, isShaped, req, hasReq, slot, hasSlot, preview, hasPreview, ⟨⟩⟩
    exact ⟨_, rfl, shaped (.createTask ..) isShaped (by simp [entries, *]), trivial⟩
  · rcases decoded with ⟨⟨⟩, isShaped, req, hasReq, slot, hasSlot, task, ⟨hasTask, ok⟩, ⟨⟩⟩
    exact ⟨_, rfl, shaped (.unpauseTask ..) isShaped (by simp [entries, *]), ok⟩
  · rcases decoded with ⟨⟨⟩, isShaped, req, hasReq, path, hasPath, ⟨⟩⟩
    exact ⟨_, rfl, shaped (.installBegin ..) isShaped (by simp [entries, *]), trivial⟩
  · rcases decoded with ⟨⟨⟩, isShaped, review, hasReview, approve, hasApprove, ⟨⟩⟩
    exact ⟨_, rfl, shaped (.installAnswer ..) isShaped (by simp [entries, *]), trivial⟩
  · rcases decoded with ⟨⟨⟩, isShaped, req, hasReq, task, ⟨hasTask, ok⟩, ⟨⟩⟩
    exact ⟨_, rfl, shaped (.pauseTask ..) isShaped (by simp [entries, *]), ok⟩
  · rcases decoded with ⟨⟨⟩, isShaped, reason, ⟨hasReason, known⟩, req, hasReq, task, ⟨hasTask, ok⟩, ⟨⟩⟩
    exact ⟨_, rfl, shaped (.exited ..) isShaped (by simp [entries, *]), by simpa using known, ok⟩
  · rcases decoded with ⟨⟨⟩, isShaped, req, hasReq, task, ⟨hasTask, ok⟩, text, hasMode, mode, rfl, ⟨⟩⟩
    exact ⟨_, rfl, shaped (.cancelTask ..) isShaped (by simp [entries, *]), ok⟩
  · cases decoded

theorem ofFields_fields {message : ToPolicyd} (passes : message.Passes) :
    ofFields message.fields = .ok message.clamped := by
  have shaped := Fields.shape_ofEntries message.allows
  have values : ∀ entry ∈ message.entries, message.fields entry.1 = some entry.2 :=
    fun entry member => (Slots.ofEntries_eq_some message.allows.nodup).mpr member
  change shape message.fields message.want = _ at shaped
  generalize message.fields = fields at shaped values
  cases message <;>
    simp_all [ofFields, bind_eq_ok, map_eq_ok, required_eq_ok, CancelMode.parse_eq_ok, principal,
      account, taskId, checked_eq_ok, exclusive_eq_ok, entries, want, Passes, clamped]

theorem encode_eq (message : ToPolicyd) : message.encode = entriesBytes message.entries := by
  rw [← finish_entries message.allows]
  cases message <;> rfl

/-- The decoder accepts the encodings of the messages that pass its checks and nothing
else, and clamps them. -/
theorem decode_eq_ok {bytes : Bytes} {message : ToPolicyd} :
    decode bytes = .ok message ↔ ∃ written : ToPolicyd, written.clamped = message ∧
      bytes = written.encode ∧ written.Passes ∧ written.fields.Fit := by
  simp only [decode, bind_eq_ok, readFields_eq_ok, encode_eq]
  constructor
  · rintro ⟨fields, ⟨rfl, fit, versioned⟩, decoded⟩
    rcases of_ofFields versioned decoded with ⟨written, clamps, rfl, passes⟩
    exact ⟨written, clamps, rfl, passes, fit⟩
  · rintro ⟨written, rfl, rfl, passes, fit⟩
    have versioned : written.fields .v = some Link.messageVersion := by
      cases written <;> rfl
    exact ⟨written.fields, ⟨rfl, fit, versioned⟩, ofFields_fields passes⟩

theorem decode_encode {message : ToPolicyd} (passes : message.Passes)
    (short : message.encode.length < 2 ^ 64) : decode message.encode = .ok message.clamped := by
  refine decode_eq_ok.mpr ⟨message, rfl, rfl, passes, ?_⟩
  rw [encode_eq] at short
  refine entries_fit message.allows ?_ short
  cases message <;> simp [entries, FieldKind.Few]

end ToPolicyd

/-! ## Telling the messages apart -/

theorem mapBytes_ne_of_first {first other : String} {value otherValue : Bytes}
    {rows otherRows : List (String × Bytes)} (few : ((first, value) :: rows).length < 2 ^ 64)
    (otherFew : ((other, otherValue) :: otherRows).length < 2 ^ 64)
    (sameLength : (Writer.text first).length = (Writer.text other).length)
    (different : Writer.text first ≠ Writer.text other) :
    mapBytes ((first, value) :: rows) ≠ mapBytes ((other, otherValue) :: otherRows) := by
  intro same
  have plain : ∀ {arg}, arg < 2 ^ 64 → HeadFits majorMap arg :=
    (headFits_iff majorMap (by decide) (by decide)).mpr
  have rest := (Framed.head_append_inj (plain few) (plain otherFew) same).2.2
  simp only [List.flatMap_cons, rowBytes, List.append_assoc] at rest
  exact different (List.append_inj rest sameLength).1

theorem FromPolicyd.tagged (message : FromPolicyd) :
    ∃ tag ∈ ["table", "defer_answer", "minted", "mint_refused", "revoked", "audit_records",
      "preview", "task_created", "install_review", "done", "refused", "task_state", "provision"],
      message.fields .m = some tag := by
  cases message <;> exact ⟨_, by simp, rfl⟩

theorem ToPolicyd.tagged (message : ToPolicyd) :
    ∃ tag ∈ ["defer", "mint", "revoke", "terminate", "audit_tail", "preview_task", "create_task",
      "unpause_task", "install_begin", "install_answer", "pause_task", "cancel_task", "exited"],
      message.fields .m = some tag := by
  cases message <;> exact ⟨_, by simp, rfl⟩

theorem tags_differ (message : FromPolicyd) (other : ToPolicyd) :
    message.fields ≠ other.fields := by
  intro same
  rcases message.tagged with ⟨tag, isTag, hasTag⟩
  rcases other.tagged with ⟨otherTag, isOther, hasOther⟩
  rw [same, hasOther] at hasTag
  cases hasTag
  revert isTag
  simp only [List.mem_cons, List.not_mem_nil, or_false] at isOther
  rcases isOther with rfl | rfl | rfl | rfl | rfl | rfl | rfl | rfl | rfl | rfl | rfl | rfl | rfl <;>
    decide

/-! ### The key offer -/

structure OfferFields where
  v : Option UInt64
  key : Option (FixedBytes 32)

namespace OfferFields

def read (key : String) (fields : OfferFields) : Read OfferError OfferFields :=
  match key with
  | "v" => return { fields with v := some (← u64) }
  | "key" => return { fields with key := some (← byteArray 32) }
  | _ => throw .shape

instance local_read (key : String) (fields : OfferFields) : Local (read key fields) := by
  unfold read
  split <;> infer_instance

def schema : Schema OfferFields :=
  [("v", fun fields => fields.v.map Writer.u64),
    ("key", fun fields => fields.key.map fun key => Writer.bytes key.val)]

theorem schema_ascend : NamesAscend (schema.map Prod.fst) := by
  show NamesAscend ["v", "key"]
  decide

theorem accepts_fields {fields : OfferFields} :
    Accepts (readMap ⟨none, none⟩ read) 0 fields encoding ↔
      encoding = mapBytes (presentRows (schema.rows fields)) ∧ 0 < maxMapDepth ∧ True := by
  apply accepts_record schema_ascend (by decide)
  · intro name before after value accepts
    unfold read at accepts
    split at accepts
    · rcases accepts_store.mp accepts with ⟨v, read, rfl⟩
      rcases accepts_u64.mp read with rfl
      exact ⟨by simp [schema, Schema.Stores], id⟩
    · rcases accepts_store.mp accepts with ⟨key, read, rfl⟩
      rcases accepts_byteArray.mp read with ⟨rfl, -⟩
      exact ⟨by simp [schema, Schema.Stores], id⟩
    · exact absurd accepts not_accepts_throw
  · simp [schema]
  · trivial
  · rintro ⟨v, key⟩ -
    refine Rows.store (fun v => OfferFields.mk v none) (fun v _ =>
      accepts_store.mpr ⟨v, accepts_u64.mpr rfl, rfl⟩) ?_
    refine Rows.store (fun key => OfferFields.mk v key) (fun key _ =>
      accepts_store.mpr ⟨key, accepts_byteArray.mpr ⟨rfl, by decide⟩, rfl⟩) ?_
    exact .nil

end OfferFields

theorem run_require {holds : Prop} [Decidable holds] {before after : Reader} {value : Unit}
    (success : (require holds).run before = .ok (value, after)) : holds ∧ after = before := by
  unfold require at success
  split at success
  · cases success
    exact ⟨by assumption, rfl⟩
  · cases success

theorem run_readKeyOffer {before after : Reader} {key : FixedBytes 32}
    (success : readKeyOffer.run before = .ok (key, after)) :
    (readMap ⟨none, none⟩ OfferFields.read).run before =
      .ok (⟨some Link.version, some key⟩, after) := by
  rcases ok_of_bind_ok success with ⟨⟨n, reader⟩, begun, success⟩
  rcases ok_of_bind_ok success with ⟨⟨_, _⟩, isTwo, success⟩
  rcases run_require isTwo with ⟨rfl, rfl⟩
  rcases ok_of_bind_ok success with ⟨⟨name, reader⟩, first, success⟩
  rcases ok_of_bind_ok success with ⟨⟨_, _⟩, isVersion, success⟩
  rcases run_require isVersion with ⟨rfl, rfl⟩
  rcases ok_of_bind_ok success with ⟨⟨v, reader⟩, readVersion, success⟩
  rcases ok_of_bind_ok success with ⟨⟨_, _⟩, sameVersion, success⟩
  rcases run_require sameVersion with ⟨rfl, rfl⟩
  rcases ok_of_bind_ok success with ⟨⟨name, reader⟩, second, success⟩
  rcases ok_of_bind_ok success with ⟨⟨_, _⟩, isKey, success⟩
  rcases run_require isKey with ⟨rfl, rfl⟩
  rcases ok_of_bind_ok success with ⟨⟨found, reader⟩, readKey, success⟩
  rcases ok_of_bind_ok success with ⟨⟨_, closed⟩, closes, success⟩
  cases success
  have step : ∀ n fields (reader : Reader), eachKey OfferFields.read (n + 1) fields reader =
      Cbor.key reader >>= fun named => OfferFields.read named.1 fields named.2 >>= fun kept =>
        eachKey OfferFields.read n kept.1 kept.2 := fun _ _ _ => rfl
  have keepsVersion : OfferFields.read "v" ⟨none, none⟩ _ = .ok (⟨some Link.version, none⟩, _) :=
    bind_eq_ok.mpr ⟨_, readVersion, rfl⟩
  have keepsKey : OfferFields.read "key" ⟨some Link.version, none⟩ _ =
      .ok (⟨some Link.version, some key⟩, _) := bind_eq_ok.mpr ⟨_, readKey, rfl⟩
  refine bind_eq_ok.mpr ⟨_, begun, bind_eq_ok.mpr ⟨(⟨some Link.version, some key⟩, _), ?_,
    bind_eq_ok.mpr ⟨_, closes, rfl⟩⟩⟩
  rw [step]
  refine bind_eq_ok.mpr ⟨_, first, bind_eq_ok.mpr ⟨_, keepsVersion, ?_⟩⟩
  rw [step]
  exact bind_eq_ok.mpr ⟨_, second, bind_eq_ok.mpr ⟨_, keepsKey, rfl⟩⟩

theorem decodeKeyOffer_ok [VerifyingKeys] {bytes : Bytes} {key : FixedBytes 32}
    (decoded : decodeKeyOffer bytes = .ok key) :
    bytes = mapBytes [("v", Writer.u64 Link.version), ("key", Writer.bytes key.val)] := by
  rw [decodeKeyOffer, bind_eq_ok] at decoded
  rcases decoded with ⟨found, isRead, isPoint⟩
  obtain rfl : found = key := by
    split at isPoint
    · exact Except.ok.inj isPoint
    · cases isPoint
  have readsMap : decodeAll (readMap ⟨none, none⟩ OfferFields.read) bytes =
      .ok ⟨some Link.version, some found⟩ := by
    rcases map_eq_ok.mp isRead with ⟨⟨value, closed⟩, ran, rfl⟩
    rcases ok_of_bind_ok ran with ⟨⟨value, after⟩, read, finishes⟩
    rcases ok_of_bind_ok finishes with ⟨⟨_, closed⟩, finished, returned⟩
    cases returned
    refine map_eq_ok.mpr ⟨(_, closed), ?_, rfl⟩
    have finishes : (finish : Read OfferError Unit).run after = .ok ((), closed) := finished
    simp only [StateT.run_bind, StateT.run_pure, run_readKeyOffer read, ok_bind, finishes]
    rfl
  exact (OfferFields.accepts_fields.mp (decodeAll_eq_ok.mp readsMap)).1

/-! ### The four readings -/

inductive Reading where
  | fromPolicyd
  | toPolicyd
  | emission
  | keyOffer
  deriving DecidableEq

def Reads [VerifyingKeys] (bytes : Bytes) : Reading → Prop
  | .fromPolicyd => ∃ message, FromPolicyd.decode bytes = .ok message
  | .toPolicyd => ∃ message, ToPolicyd.decode bytes = .ok message
  | .emission => ∃ emission, Emission.decode bytes = .ok emission
  | .keyOffer => ∃ key, decodeKeyOffer bytes = .ok key

theorem entriesBytes_first {want : Nat} {entries : List FieldEntry}
    (allows : Fields.Allows want (entries.map Sigma.fst)) :
    ∃ tag rows, rows.length < 32 ∧ entriesBytes entries = mapBytes (("m", Writer.text tag) :: rows) := by
  have tagged := Slots.isSome_ofEntries entries .m
  rw [decide_eq_true allows.tag] at tagged
  rcases Option.isSome_iff_exists.mp tagged with ⟨tag, isTag⟩
  have whole : Fields.schema.rows (Slots.ofEntries entries) =
      ("m", (Slots.ofEntries entries .m).map Writer.text) ::
        (slotSchema FieldName.key (fun name => name.kind.write)
          FieldName.ascending.tail).rows (Slots.ofEntries entries) := rfl
  refine ⟨tag, presentRows ((slotSchema FieldName.key (fun name => name.kind.write)
    FieldName.ascending.tail).rows (Slots.ofEntries entries)), ?_, ?_⟩
  · refine lt_of_le_of_lt (List.length_filterMap_le _ _) ?_
    simp [Schema.rows, slotSchema, FieldName.ascending]
  · rw [entriesBytes, whole, isTag]
    rfl

def Reading.first : Reading → String
  | fromPolicyd => "m"
  | toPolicyd => "m"
  | emission => "v"
  | keyOffer => "v"

variable [VerifyingKeys] {bytes : Bytes}

theorem Reads.opens {reading : Reading} (reads : Reads bytes reading) :
    ∃ value rows, rows.length < 32 ∧ bytes = mapBytes ((reading.first, value) :: rows) := by
  cases reading with
  | fromPolicyd =>
    rcases reads with ⟨message, decoded⟩
    rcases entriesBytes_first message.allows with ⟨tag, rows, few, opens⟩
    rw [← message.encode_eq, ← (FromPolicyd.decode_eq_ok.mp decoded).1] at opens
    exact ⟨_, rows, few, opens⟩
  | toPolicyd =>
    rcases reads with ⟨message, decoded⟩
    rcases ToPolicyd.decode_eq_ok.mp decoded with ⟨written, -, isWritten, -⟩
    rcases entriesBytes_first written.allows with ⟨tag, rows, few, opens⟩
    rw [← written.encode_eq, ← isWritten] at opens
    exact ⟨_, rows, few, opens⟩
  | emission =>
    rcases reads with ⟨emission, decoded⟩
    have written := (Emission.decode_eq_ok.mp decoded).1
    rw [emission.encode_eq] at written
    refine ⟨_, _, lt_of_le_of_lt (List.length_filterMap_le _ _) ?_, written⟩
    simp
  | keyOffer =>
    rcases reads with ⟨key, decoded⟩
    exact ⟨_, _, by simp, decodeKeyOffer_ok decoded⟩

theorem Reads.first_eq {reading other : Reading} (reads : Reads bytes reading)
    (alsoReads : Reads bytes other) : reading.first = other.first := by
  rcases reads.opens with ⟨value, rows, few, opens⟩
  rcases alsoReads.opens with ⟨otherValue, otherRows, otherFew, alsoOpens⟩
  rw [opens] at alsoOpens
  by_contra different
  refine mapBytes_ne_of_first ?_ ?_ ?_ ?_ alsoOpens
  · rw [List.length_cons]
    omega
  · rw [List.length_cons]
    omega
  · cases reading <;> cases other <;> rfl
  · revert different
    cases reading <;> cases other <;> decide

theorem not_reads_from_and_to (reads : Reads bytes .fromPolicyd) : ¬Reads bytes .toPolicyd := by
  rintro ⟨other, toDecoded⟩
  rcases reads with ⟨message, decoded⟩
  rcases bind_eq_ok.mp decoded with ⟨fields, isRead, taken⟩
  rcases bind_eq_ok.mp toDecoded with ⟨same, alsoRead, alsoTaken⟩
  cases isRead.symm.trans alsoRead
  rcases readFields_eq_ok.mp isRead with ⟨-, fit, versioned⟩
  have isMessage := (FromPolicyd.of_ofFields versioned (fit.fits .records) taken).1
  rcases ToPolicyd.of_ofFields versioned alsoTaken with ⟨written, -, isWritten, -⟩
  exact tags_differ message written (isMessage.symm.trans isWritten)

theorem not_reads_emission_and_offer (reads : Reads bytes .emission) : ¬Reads bytes .keyOffer := by
  rintro ⟨key, offered⟩
  rcases reads with ⟨emission, decoded⟩
  have written := (Emission.decode_eq_ok.mp decoded).1
  rw [decodeKeyOffer_ok offered, emission.encode_eq] at written
  have few : (presentRows (EmissionFields.schema.rows emission.fields)).length < 2 ^ 64 := by
    refine lt_of_le_of_lt (List.length_filterMap_le _ _) ?_
    simp [Schema.rows, EmissionFields.schema]
  have same := length_eq_of_mapBytes (by simp) few written
  rw [length_presentRows] at same
  simp [EmissionFields.schema, Schema.rows, Emission.fields, List.countP_cons] at same

theorem Reads.unique {reading other : Reading} (reads : Reads bytes reading)
    (alsoReads : Reads bytes other) : reading = other := by
  have first := reads.first_eq alsoReads
  cases reading <;> cases other <;> first
    | rfl
    | exact absurd first (by decide)
    | exact absurd alsoReads (not_reads_from_and_to reads)
    | exact absurd reads (not_reads_from_and_to alsoReads)
    | exact absurd alsoReads (not_reads_emission_and_offer reads)
    | exact absurd reads (not_reads_emission_and_offer alsoReads)

/-! ## Both directions -/

def ToPolicyd.SameMeaning (message other : ToPolicyd) : Prop := message.clamped = other.clamped

omit [VerifyingKeys] in
theorem ToPolicyd.clamped_clamped (message : ToPolicyd) :
    message.clamped.clamped = message.clamped := by
  cases message with
  | auditTail req principal n =>
    have within : min n tailLimit ≤ tailLimit := by
      by_cases least : n ≤ tailLimit
      · rwa [show min n tailLimit = n from if_pos least]
      · rw [show min n tailLimit = tailLimit from if_neg least]
        exact UInt64.le_refl _
    exact congrArg (auditTail req principal) (if_pos within)
  | _ => rfl

/-- Both directions read back what they write; what they read is what was written, or
asks for the same; and no bytes are two of a message of either direction, an emission
and a key offer. -/
theorem link_messages :
    (∀ message : FromPolicyd, message.Valid → message.encode.length < 2 ^ 64 →
      FromPolicyd.decode message.encode = .ok message) ∧
    (∀ message : ToPolicyd, message.Valid → message.encode.length < 2 ^ 64 →
      ToPolicyd.decode message.encode = .ok message) ∧
    (∀ bytes message, FromPolicyd.decode bytes = .ok message → message.encode = bytes) ∧
    (∀ bytes message, ToPolicyd.decode bytes = .ok message →
      ∃ written : ToPolicyd, written.encode = bytes ∧ written.SameMeaning message) ∧
    ∀ bytes reading other, Reads bytes reading → Reads bytes other → reading = other := by
  refine ⟨fun _ => FromPolicyd.decode_encode, ?_, ?_, ?_, fun _ _ _ => Reads.unique⟩
  · intro message valid short
    rw [ToPolicyd.decode_encode valid.1 short, ToPolicyd.clamped_of_valid valid]
  · exact fun bytes message decoded => (FromPolicyd.decode_eq_ok.mp decoded).1.symm
  · intro bytes message decoded
    rcases ToPolicyd.decode_eq_ok.mp decoded with ⟨written, rfl, rfl, -⟩
    exact ⟨written, rfl, written.clamped_clamped.symm⟩

omit [VerifyingKeys] in
theorem link_messages_done :
    FromPolicyd.decode (FromPolicyd.done 7).encode = .ok (.done 7) ∧
      ToPolicyd.decode (ToPolicyd.auditTail 1 "human" 20).encode = .ok (.auditTail 1 "human" 20) ∧
      ¬@Reads ⟨fun _ => true⟩ (FromPolicyd.done 7).encode .toPolicyd := by
  have claims := @link_messages ⟨fun _ => true⟩
  have done := claims.1 (.done 7) trivial (by decide +kernel)
  have human : principalOk "human" := by decide
  refine ⟨done, claims.2.1 _ ⟨human, ?_⟩ (by decide +kernel), fun reads => ?_⟩
  · rintro _ _ _ ⟨⟩
    decide
  · cases claims.2.2.2.2 _ .fromPolicyd .toPolicyd ⟨_, done⟩ reads

end EclipseOS.PolicyEval
