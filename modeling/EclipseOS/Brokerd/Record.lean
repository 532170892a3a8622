import EclipseOS.Brokerd.Bind
import EclipseOS.PolicyEval.GrantCodec

/-! # Secret records

Everything about a secret except its value. The metadata is sealed apart from the
value, so that every precondition is decided before the value is decrypted. -/

namespace EclipseOS.Brokerd

open Foundation PolicyEval Cbor

inductive Kind where
  | bearer
  | basic
  | cookie
  | password
  | totp
  | sshKey
  | env
  deriving DecidableEq

namespace Kind

def all : List Kind := [bearer, basic, cookie, password, totp, sshKey, env]

def asStr : Kind → String
  | bearer => "bearer"
  | basic => "basic"
  | cookie => "cookie"
  | password => "password"
  | totp => "totp"
  | sshKey => "ssh_key"
  | env => "env"

def parse (text : String) : Option Kind := all.find? (·.asStr = text)

@[simp] theorem parse_asStr (kind : Kind) : parse kind.asStr = some kind := by
  cases kind <;> rfl

end Kind

inductive Mode where
  | proxyHeader
  | fieldFill
  | materialize
  deriving DecidableEq

namespace Mode

def all : List Mode := [proxyHeader, fieldFill, materialize]

def asStr : Mode → String
  | proxyHeader => "proxy_header"
  | fieldFill => "field_fill"
  | materialize => "materialize"

def parse (text : String) : Option Mode := all.find? (·.asStr = text)

@[simp] theorem parse_asStr (mode : Mode) : parse mode.asStr = some mode := by
  cases mode <;> rfl

end Mode

/-- What the owner supplies when adding a secret. -/
structure NewSecret where
  name : String
  kind : Kind
  boundTo : List Binding
  modes : List Mode
  requiresPrompt : Bool
  rotationHintDays : Option UInt32
  deriving DecidableEq

structure Meta where
  name : String
  id : Ulid
  kind : Kind
  boundTo : List Binding
  modes : List Mode
  requiresPrompt : Bool
  rotationHintDays : Option UInt32
  createdUnix : UInt64
  rotationCounter : UInt64
  deriving DecidableEq

def maxName : Nat := 128

def maxBindings : Nat := 32

inductive RecordError where
  | name
  | binding
  | modes
  | decode
  deriving DecidableEq

instance : FromCbor RecordError := ⟨fun _ => .decode⟩

def isNameByte (byte : UInt8) : Bool :=
  (0x30 ≤ byte && byte ≤ 0x39) || (0x41 ≤ byte && byte ≤ 0x5a) ||
    (0x61 ≤ byte && byte ≤ 0x7a) || byte = 0x2e || byte = 0x5f || byte = 0x2d

def nameOk (name : String) : Bool :=
  !(utf8 name).isEmpty && (utf8 name).length ≤ maxName && (utf8 name).all isNameByte

theorem length_of_nameOk {name : String} (ok : nameOk name = true) :
    (utf8 name).length ≤ maxName := by
  rw [nameOk, Bool.and_eq_true, Bool.and_eq_true, decide_eq_true_eq] at ok
  exact ok.1.2

def NewSecret.validate (new : NewSecret) : Except RecordError Unit :=
  if nameOk new.name = false then .error .name
  else if new.boundTo = [] ∨ maxBindings < new.boundTo.length then .error .binding
  else if new.modes = [] ∧ new.kind ≠ .totp then .error .modes
  else .ok ()

namespace Meta

def hasMode (record : Meta) (mode : Mode) : Bool := mode ∈ record.modes

def encode (record : Meta) : Bytes :=
  MapBuilder.new
    |>.insert "bound_to" (arrayOf (fun binding => Writer.text binding.toText) record.boundTo)
    |>.insert "created" (Writer.u64 record.createdUnix)
    |>.insertOpt "hint" (record.rotationHintDays.map fun days => Writer.u64 days.toUInt64)
    |>.insert "id" (Writer.bytes record.id.val)
    |>.insert "kind" (Writer.text record.kind.asStr)
    |>.insert "modes" (arrayOf (fun mode => Writer.text mode.asStr) record.modes)
    |>.insert "name" (Writer.text record.name)
    |>.insert "prompt" (Writer.bool record.requiresPrompt)
    |>.insert "rc" (Writer.u64 record.rotationCounter)
    |>.finish

end Meta

/-- An array of at most `most` items. -/
def arrayUpTo {α : Type} (most : Nat) (item : Read RecordError α) : Read RecordError (List α) := do
  let n ← arrayLen
  if most < n then throw .decode else collect n item

structure MetaFields where
  name : Option String
  id : Option Ulid
  kind : Option Kind
  created : Option UInt64
  rc : Option UInt64
  bound : Option (List Binding)
  modes : Option (List Mode)
  prompt : Option Bool
  hint : Option UInt32

namespace MetaFields

def initial : MetaFields := ⟨none, none, none, none, none, none, none, none, none⟩

def read (key : String) (fields : MetaFields) : Read RecordError MetaFields :=
  match key with
  | "bound_to" =>
    return { fields with bound := some (← arrayUpTo maxBindings (textAs Binding.parse)) }
  | "created" => return { fields with created := some (← u64) }
  | "hint" => return { fields with hint := some (← u32) }
  | "id" => return { fields with id := some (← byteArray 16) }
  | "kind" => return { fields with kind := some (← textAs Kind.parse) }
  | "modes" => return { fields with modes := some (← arrayUpTo 3 (textAs Mode.parse)) }
  | "name" => return { fields with name := some (← text) }
  | "prompt" => return { fields with prompt := some (← bool) }
  | "rc" => return { fields with rc := some (← u64) }
  | _ => throw .decode

def record (fields : MetaFields) : Except RecordError Meta :=
  match fields.name, fields.id, fields.kind, fields.bound, fields.modes, fields.prompt,
    fields.created, fields.rc with
  | some name, some id, some kind, some bound, some modes, some prompt, some created, some rc =>
    if nameOk name = false ∨ bound = [] then
      .error .decode
    else
      .ok ⟨name, id, kind, bound, modes, prompt, fields.hint, created, rc⟩
  | _, _, _, _, _, _, _, _ => .error .decode

end MetaFields

def Meta.decode (bytes : Bytes) : Except RecordError Meta := do
  (← decodeAll (readMap .initial MetaFields.read) bytes).record

/-! ## Records that read back -/

section ReadsBack

variable {depth : Nat}

instance local_arrayUpTo {α : Type} (most : Nat) (item : Read RecordError α) [Local item] :
    Local (arrayUpTo most item) := by
  unfold arrayUpTo
  infer_instance

theorem accepts_arrayUpTo {α : Type} {item : Read RecordError α} {encode : α → Bytes}
    {most : Nat} (small : most < 2 ^ 64) {values : List α} (few : values.length ≤ most)
    (items : ∀ value ∈ values, Accepts item depth value (encode value)) :
    Accepts (arrayUpTo most item) depth values (arrayOf encode values) := by
  refine (accepts_arrayLen.mpr ⟨rfl, by omega⟩).bind ?_
  rw [if_neg (by omega)]
  exact Accepts.collect items

instance MetaFields.local_read (key : String) (fields : MetaFields) : Local (read key fields) := by
  unfold read
  split <;> infer_instance

namespace Meta

/-- What the decoder asks of a record that was written. -/
structure Readable (record : Meta) : Prop where
  named : nameOk record.name = true
  bound : record.boundTo ≠ [] ∧ record.boundTo.length ≤ maxBindings
  bindings : ∀ binding ∈ record.boundTo,
    Binding.parse binding.toText = some binding ∧ (utf8 binding.toText).length ≤ 2 ^ 20
  modes : record.modes.length ≤ 3

def schema : Schema Meta :=
  [("id", fun record => some (Writer.bytes record.id.val)),
    ("rc", fun record => some (Writer.u64 record.rotationCounter)),
    ("hint", fun record => record.rotationHintDays.map fun days => Writer.u64 days.toUInt64),
    ("kind", fun record => some (Writer.text record.kind.asStr)),
    ("name", fun record => some (Writer.text record.name)),
    ("modes", fun record => some (arrayOf (fun mode => Writer.text mode.asStr) record.modes)),
    ("prompt", fun record => some (Writer.bool record.requiresPrompt)),
    ("created", fun record => some (Writer.u64 record.createdUnix)),
    ("bound_to", fun record =>
      some (arrayOf (fun binding => Writer.text binding.toText) record.boundTo))]

theorem schema_ascend : NamesAscend (schema.map Prod.fst) := by
  show NamesAscend ["id", "rc", "hint", "kind", "name", "modes", "prompt", "created", "bound_to"]
  decide

theorem encode_eq (record : Meta) :
    record.encode = mapBytes (presentRows (schema.rows record)) := by
  simp only [encode, MapBuilder.new_eq_ofRows, MapBuilder.insert_ofRows,
    MapBuilder.insertOpt_ofRows, List.nil_append, List.cons_append]
  exact Schema.finish_of_order schema_ascend [8, 7, 2, 0, 3, 5, 4, 6, 1] (by decide) rfl

def fields (record : Meta) : MetaFields :=
  ⟨record.name, record.id, record.kind, record.createdUnix, record.rotationCounter,
    record.boundTo, record.modes, record.requiresPrompt, record.rotationHintDays⟩

theorem accepts_fields {record : Meta} (readable : record.Readable) :
    Accepts (readMap .initial MetaFields.read) 0 record.fields record.encode := by
  rw [encode_eq]
  refine .record schema_ascend (by decide) (by decide) ?_
  rcases record with ⟨name, id, kind, boundTo, modes, prompt, hint, created, rc⟩
  rcases readable with ⟨named, ⟨-, few⟩, bindings, few'⟩
  refine .cons (accepts_store.mpr ⟨id, accepts_byteArray.mpr ⟨rfl, by decide⟩, rfl⟩) ?_
  refine .cons (accepts_store.mpr ⟨rc, accepts_u64.mpr rfl, rfl⟩) ?_
  refine Rows.store (fun hint => MetaFields.mk none id none none rc none none none hint)
    (fun days _ => accepts_store.mpr ⟨days, accepts_u32.mpr rfl, rfl⟩) ?_
  refine .cons (accepts_store.mpr ⟨kind, accepts_textAs.mpr ⟨kind.asStr, kind.parse_asStr, rfl, ?_⟩,
    rfl⟩) ?_
  · cases kind <;> decide
  have nameShort : (utf8 name).length < 2 ^ 64 :=
    lt_of_le_of_lt (length_of_nameOk named) (by decide)
  refine .cons (accepts_store.mpr ⟨name, accepts_text.mpr ⟨rfl, nameShort⟩, rfl⟩) ?_
  refine .cons (accepts_store.mpr ⟨modes, accepts_arrayUpTo (by decide) few' fun mode _ =>
    accepts_textAs.mpr ⟨mode.asStr, mode.parse_asStr, rfl, ?_⟩, rfl⟩) ?_
  · cases mode <;> decide
  refine .cons (accepts_store.mpr ⟨prompt, accepts_bool.mpr rfl, rfl⟩) ?_
  refine .cons (accepts_store.mpr ⟨created, accepts_u64.mpr rfl, rfl⟩) ?_
  refine .cons (accepts_store.mpr ⟨boundTo, accepts_arrayUpTo (by decide) few
    fun binding member => ?_, rfl⟩) .nil
  rcases bindings binding member with ⟨parsed, short⟩
  exact accepts_textAs.mpr ⟨_, parsed, rfl, lt_of_le_of_lt short (by decide)⟩

theorem decode_encode {record : Meta} (readable : record.Readable) :
    decode record.encode = .ok record := by
  rw [decode, decodeAll_eq_ok.mpr (accepts_fields readable)]
  have passes : ¬(nameOk record.name = false ∨ record.boundTo = []) := by
    simp [readable.named, readable.bound.1]
  exact if_neg passes

end Meta

end ReadsBack

end EclipseOS.Brokerd
