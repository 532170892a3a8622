import EclipseOS.PolicyEval.Audit
import EclipseOS.PolicyEval.GrantCodec

/-! # Audit records

The envelope of every record in the journal, its canonical bytes and the hash
that chains it to the one before. -/

namespace EclipseOS.Policyd

open Foundation PolicyEval Cbor

def maxFrame : Nat := 4 * 1024 * 1024

inductive StoreError where
  | io
  | cbor (error : Cbor.Error)
  | chainBroken (seq : UInt64)
  | tooLarge
  deriving DecidableEq

def genesis : Digest := zeroBytes 32

structure Record where
  seq : UInt64
  ts : UInt64
  mono : UInt64
  kind : Kind
  principal : String
  grantId : Option Ulid
  taskId : Option Ulid
  chainId : Option (BitVec 128)
  reqId : Option UInt64
  serial : Option UInt64
  body : Bytes
  prevHash : Digest
  hash : Digest
  deriving DecidableEq

namespace Record

/-- `to_be_bytes` of a chain id. -/
def chainIdBytes (chainId : BitVec 128) : Bytes := bigEndian 16 chainId.toNat

/-- The bytes the chain hashes: the record without its own hash. -/
def unhashed (record : Record) : Bytes :=
  MapBuilder.new
    |>.insert "body" record.body
    |>.insertOpt "chain_id" (record.chainId.map fun chain => Writer.bytes (chainIdBytes chain))
    |>.insertOpt "grant_id" (record.grantId.map fun grant => Writer.bytes grant.val)
    |>.insert "kind" (Writer.text record.kind.asStr)
    |>.insert "mono" (Writer.u64 record.mono)
    |>.insert "prev_hash" (Writer.bytes record.prevHash.val)
    |>.insert "principal" (Writer.text record.principal)
    |>.insertOpt "req_id" (record.reqId.map Writer.u64)
    |>.insert "seq" (Writer.u64 record.seq)
    |>.insertOpt "serial" (record.serial.map Writer.u64)
    |>.insertOpt "task_id" (record.taskId.map fun task => Writer.bytes task.val)
    |>.insert "ts" (Writer.u64 record.ts)
    |>.finish

/-- The hash the record should carry, given its contents. -/
def computeHash [Blake3] (record : Record) : Digest :=
  Blake3.hash (record.prevHash.val ++ record.unhashed)

def encode (record : Record) : Bytes :=
  Writer.array 2 ++ record.unhashed ++ Writer.bytes record.hash.val

/-- A record of a kind about a principal. The chain fields are left for the store
to fill. -/
def about (kind : Kind) (principal : String) (taskId : Option Ulid) (body : Bytes) : Record :=
  ⟨0, 0, 0, kind, principal, none, taskId, none, none, none, body, genesis, genesis⟩

def fromEmission (emission : Emission) : Record :=
  ⟨0, 0, 0, emission.kind, emission.principal, emission.grantId, emission.taskId,
    emission.chainId, emission.reqId, emission.serial, emission.body, genesis, genesis⟩

/-- Ties a new segment to the one sealed before it. -/
def anchor (sealedName : String) (head : Digest) : Record :=
  about .anchor "policyd" none <|
    MapBuilder.new
      |>.insert "head" (Writer.bytes head.val)
      |>.insert "sealed" (Writer.text sealedName)
      |>.finish

end Record

/-- The record read so far, and whether its kind was among the keys. -/
structure RecordFields where
  record : Record
  seenKind : Bool

namespace RecordFields

def initial : RecordFields := ⟨Record.about .anchor "" none [], false⟩

def read (key : String) (fields : RecordFields) : Read Cbor.Error RecordFields :=
  let record := fields.record
  match key with
  | "body" => return { fields with record := { record with body := (← spanned skip).2 } }
  | "chain_id" =>
    return { fields with record := { record with
      chainId := some (BitVec.ofNat 128 (ofBigEndian (← byteArray 16).val)) } }
  | "grant_id" => return { fields with record := { record with grantId := some (← byteArray 16) } }
  | "kind" =>
    return { fields with
      record := { record with kind := ← textAs Kind.parse }
      seenKind := true }
  | "mono" => return { fields with record := { record with mono := ← u64 } }
  | "prev_hash" => return { fields with record := { record with prevHash := ← byteArray 32 } }
  | "principal" => return { fields with record := { record with principal := ← text } }
  | "req_id" => return { fields with record := { record with reqId := some (← u64) } }
  | "seq" => return { fields with record := { record with seq := ← u64 } }
  | "serial" => return { fields with record := { record with serial := some (← u64) } }
  | "task_id" => return { fields with record := { record with taskId := some (← byteArray 16) } }
  | "ts" => return { fields with record := { record with ts := ← u64 } }
  | _ => fail .type

end RecordFields

namespace Record

def readHashed : Read Cbor.Error RecordFields := do
  let fields ← readMap .initial RecordFields.read
  return { fields with record := { fields.record with hash := ← byteArray 32 } }

def read : Read Cbor.Error RecordFields := do
  if (← arrayLen) ≠ 2 then
    fail .type
  else
    readHashed

def decode (bytes : Bytes) : Except Cbor.Error Record := do
  let fields ← decodeAll read bytes
  if fields.seenKind then
    return fields.record
  else
    throw .type

end Record

/-! ## Round trip -/

section Codec

variable {depth : Nat}

instance RecordFields.local_read (key : String) (fields : RecordFields) :
    Local (read key fields) := by
  unfold read
  dsimp only
  split <;> infer_instance

instance : Local Record.read := by
  unfold Record.read Record.readHashed
  infer_instance

namespace Record

def schema : Schema Record :=
  [("ts", fun record => some (Writer.u64 record.ts)),
    ("seq", fun record => some (Writer.u64 record.seq)),
    ("body", fun record => some record.body),
    ("kind", fun record => some (Writer.text record.kind.asStr)),
    ("mono", fun record => some (Writer.u64 record.mono)),
    ("req_id", fun record => record.reqId.map Writer.u64),
    ("serial", fun record => record.serial.map Writer.u64),
    ("task_id", fun record => record.taskId.map fun task => Writer.bytes task.val),
    ("chain_id", fun record =>
      record.chainId.map fun chain => Writer.bytes (chainIdBytes chain)),
    ("grant_id", fun record => record.grantId.map fun grant => Writer.bytes grant.val),
    ("prev_hash", fun record => some (Writer.bytes record.prevHash.val)),
    ("principal", fun record => some (Writer.text record.principal))]

theorem schema_ascend : NamesAscend (schema.map Prod.fst) := by
  show NamesAscend ["ts", "seq", "body", "kind", "mono", "req_id", "serial", "task_id",
    "chain_id", "grant_id", "prev_hash", "principal"]
  decide

theorem unhashed_eq (record : Record) :
    record.unhashed = mapBytes (presentRows (schema.rows record)) := by
  simp only [unhashed, MapBuilder.new_eq_ofRows, MapBuilder.insert_ofRows,
    MapBuilder.insertOpt_ofRows, List.nil_append, List.cons_append]
  exact Schema.finish_of_order schema_ascend
    [2, 8, 9, 3, 4, 10, 11, 5, 1, 6, 7, 0] (by decide) rfl

theorem length_body_le (record : Record) : record.body.length ≤ record.encode.length := by
  have inRows : ("body", some record.body) ∈ schema.rows record := by simp [schema, Schema.rows]
  have inMap := length_le_record inRows
  rw [← unhashed_eq] at inMap
  simp only [encode, List.length_append]
  omega

theorem length_principal_le (record : Record) :
    (Writer.text record.principal).length ≤ record.encode.length := by
  have inRows : ("principal", some (Writer.text record.principal)) ∈ schema.rows record := by
    simp [schema, Schema.rows]
  have inMap := length_le_record inRows
  rw [← unhashed_eq] at inMap
  simp only [encode, List.length_append]
  omega

@[simp] theorem ofBigEndian_chainIdBytes (chainId : BitVec 128) :
    BitVec.ofNat 128 (ofBigEndian (chainIdBytes chainId)) = chainId := by
  apply BitVec.eq_of_toNat_eq
  have small : chainId.toNat < 256 ^ 16 := chainId.isLt
  rw [chainIdBytes, ofBigEndian_bigEndian, Nat.mod_eq_of_lt small]
  exact Nat.mod_eq_of_lt chainId.isLt

theorem accepts_unhashed {record : Record} (item : Item 1 record.body)
    (short : record.encode.length < 2 ^ 64) :
    Accepts (readMap .initial RecordFields.read) 0
      ⟨{ record with hash := genesis }, true⟩ record.unhashed := by
  have principalShort := lt_of_le_of_lt (length_principal_le record) short
  rw [unhashed_eq]
  rcases record with ⟨seq, ts, mono, kind, principal, grantId, taskId, chainId, reqId, serial,
    body, prevHash, hash⟩
  refine .record schema_ascend (by decide) (by decide) ?_
  refine .cons (accepts_store.mpr ⟨ts, accepts_u64.mpr rfl, rfl⟩) ?_
  refine .cons (accepts_store.mpr ⟨seq, accepts_u64.mpr rfl, rfl⟩) ?_
  refine .cons (accepts_store.mpr ⟨((), body), accepts_spanned.mpr
    ⟨rfl, accepts_skip.mpr item⟩, rfl⟩) ?_
  refine .cons (accepts_store.mpr ⟨kind, accepts_textAs.mpr
    ⟨kind.asStr, Kind.parse_asStr kind, rfl, by cases kind <;> decide⟩, rfl⟩) ?_
  refine .cons (accepts_store.mpr ⟨mono, accepts_u64.mpr rfl, rfl⟩) ?_
  refine Rows.store (fun reqId => RecordFields.mk ⟨seq, ts, mono, kind, "", none, none, none,
    reqId, none, body, genesis, genesis⟩ true) (fun found _ =>
    accepts_store.mpr ⟨found, accepts_u64.mpr rfl, rfl⟩) ?_
  refine Rows.store (fun serial => RecordFields.mk ⟨seq, ts, mono, kind, "", none, none, none,
    reqId, serial, body, genesis, genesis⟩ true) (fun found _ =>
    accepts_store.mpr ⟨found, accepts_u64.mpr rfl, rfl⟩) ?_
  refine Rows.store (fun taskId => RecordFields.mk ⟨seq, ts, mono, kind, "", none, taskId, none,
    reqId, serial, body, genesis, genesis⟩ true) (fun found _ =>
    accepts_store.mpr ⟨found, accepts_byteArray.mpr ⟨rfl, by decide⟩, rfl⟩) ?_
  refine Rows.store (fun chainId => RecordFields.mk ⟨seq, ts, mono, kind, "", none, taskId,
    chainId, reqId, serial, body, genesis, genesis⟩ true) (fun found _ =>
    accepts_store.mpr ⟨⟨chainIdBytes found, bigEndian_length _ _⟩,
      accepts_byteArray.mpr ⟨rfl, by decide⟩, by simp⟩) ?_
  refine Rows.store (fun grantId => RecordFields.mk ⟨seq, ts, mono, kind, "", grantId, taskId,
    chainId, reqId, serial, body, genesis, genesis⟩ true) (fun found _ =>
    accepts_store.mpr ⟨found, accepts_byteArray.mpr ⟨rfl, by decide⟩, rfl⟩) ?_
  refine .cons (accepts_store.mpr ⟨prevHash, accepts_byteArray.mpr ⟨rfl, by decide⟩, rfl⟩) ?_
  exact .cons (accepts_store.mpr ⟨principal, accepts_text_of_short principalShort, rfl⟩) .nil

theorem decode_encode {record : Record} (item : Item 1 record.body)
    (short : record.encode.length < 2 ^ 64) : decode record.encode = .ok record := by
  have head : Accepts (arrayLen : Read Cbor.Error Nat) 0 2 (Writer.array 2) :=
    accepts_arrayLen.mpr ⟨rfl, by decide⟩
  have hash : Accepts (byteArray 32 : Read Cbor.Error Digest) 0 record.hash
      (Writer.bytes record.hash.val) := accepts_byteArray.mpr ⟨rfl, by decide⟩
  have hashed : Accepts readHashed 0 ⟨record, true⟩
      (record.unhashed ++ Writer.bytes record.hash.val) :=
    (accepts_unhashed item short).bind (accepts_store.mpr ⟨record.hash, hash, rfl⟩)
  have whole : Accepts read 0 ⟨record, true⟩ record.encode := by
    have composed : Accepts (arrayLen >>= fun n => if n ≠ 2 then fail .type else readHashed) 0
        ⟨record, true⟩ (Writer.array 2 ++ (record.unhashed ++ Writer.bytes record.hash.val)) :=
      head.bind (by simpa using hashed)
    rwa [← List.append_assoc] at composed
  rw [decode, decodeAll_eq_ok.mpr whole]
  rfl

end Record

end Codec

end EclipseOS.Policyd
