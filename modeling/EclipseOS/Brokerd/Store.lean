import Mathlib.Data.Finmap
import EclipseOS.Brokerd.Record
import EclipseOS.Foundation.Disk

/-! # The on-disk store

One sealed file per secret under a directory, keys wrapped by the sealed master key.
Metadata is decrypted when the store is opened and kept in memory, a value only when
it is read. -/

namespace EclipseOS.Brokerd

open Foundation PolicyEval Cbor

/-! ## Sealing -/

/-- XChaCha20-Poly1305. A body and a tag are what one plaintext encrypts to, or nothing. -/
class Aead where
  encrypt (key : FixedBytes 32) (nonce : FixedBytes 24) (aad plain : Bytes) :
    Bytes × FixedBytes 16
  decrypt (key : FixedBytes 32) (nonce : FixedBytes 24) (aad body : Bytes)
    (tag : FixedBytes 16) : Option Bytes
  decrypt_eq_some : ∀ key nonce aad body tag plain,
    decrypt key nonce aad body tag = some plain ↔ encrypt key nonce aad plain = (body, tag)
  length_encrypt : ∀ key nonce aad plain, (encrypt key nonce aad plain).1.length = plain.length

inductive CryptoError where
  | auth
  | format
  | resource
  deriving DecidableEq

inductive SealError where
  | auth
  | format
  | needsPassphrase
  | unavailable
  deriving DecidableEq

structure Sealer where
  «unseal» : Bytes → Option Bytes → Except SealError Bytes

inductive StoreError where
  | io
  | «seal» (error : SealError)
  | crypto (error : CryptoError)
  | record (error : RecordError)
  | «exists»
  | notFound
  | tooLarge
  | corrupt
  deriving DecidableEq

instance : FromCbor StoreError := ⟨fun _ => .corrupt⟩

/-- `aead::KEY`. -/
def keyLength : Nat := 32

/-- `aead::NONCE`. -/
def nonceLength : Nat := 24

/-- `aead::TAG`. -/
def tagLength : Nat := 16

section Sealing

variable [Aead]

/-- `aead::seal`, with the nonce it draws. -/
def Aead.«seal» (key : FixedBytes 32) (nonce : FixedBytes 24) (aad plain : Bytes) : Bytes :=
  let (body, tag) := Aead.encrypt key nonce aad plain
  nonce.val ++ body ++ tag.val

/-- `aead::open`. -/
def Aead.«open» (key aad blob : Bytes) : Except CryptoError Bytes :=
  let rest := blob.drop nonceLength
  match FixedBytes.ofBytes key, FixedBytes.ofBytes (blob.take nonceLength),
    FixedBytes.ofBytes (rest.drop (rest.length - tagLength)) with
  | some key, some nonce, some tag =>
    match Aead.decrypt key nonce aad (rest.take (rest.length - tagLength)) tag with
    | some plain => .ok plain
    | none => .error .auth
  | _, _, _ => .error .format

theorem Aead.open_seal (key : FixedBytes 32) (nonce : FixedBytes 24) (aad plain : Bytes) :
    Aead.«open» key.val aad (Aead.«seal» key nonce aad plain) = .ok plain := by
  rcases sealed : Aead.encrypt key nonce aad plain with ⟨body, tag⟩
  have opened := (Aead.decrypt_eq_some key nonce aad body tag plain).mpr sealed
  have ofVal {n : Nat} (value : FixedBytes n) : FixedBytes.ofBytes value.val = some value :=
    FixedBytes.ofBytes_eq_some.mpr rfl
  have start : (Aead.«seal» key nonce aad plain).take nonceLength = nonce.val := by
    simp only [Aead.«seal», sealed, List.append_assoc]
    exact List.take_left' nonce.property
  have rest : (Aead.«seal» key nonce aad plain).drop nonceLength = body ++ tag.val := by
    simp only [Aead.«seal», sealed, List.append_assoc]
    exact List.drop_left' nonce.property
  have cut : (body ++ tag.val).length - tagLength = body.length := by
    rw [List.length_append, tag.property, tagLength, Nat.add_sub_cancel]
  simp only [Aead.«open», start, rest, cut, List.take_left, List.drop_left, ofVal, opened]

theorem Aead.length_seal (key : FixedBytes 32) (nonce : FixedBytes 24) (aad plain : Bytes) :
    (Aead.«seal» key nonce aad plain).length = nonceLength + plain.length + tagLength := by
  have body := Aead.length_encrypt key nonce aad plain
  rcases sealed : Aead.encrypt key nonce aad plain with ⟨body', tag⟩
  rw [sealed] at body
  simp only [Aead.«seal», sealed, List.length_append, nonce.property, tag.property, nonceLength,
    tagLength, ← body]

end Sealing

/-! ## Files -/

/-- A file's name in the store's directory: `Path::file_stem` and `Path::extension`. -/
structure FileName where
  stem : String
  extension : Option String
  deriving DecidableEq

namespace FileName

/-- `master.sealed`. -/
def master : FileName := ⟨"master", some "sealed"⟩

/-- `<ulid>.sec`. -/
def sec (id : Ulid) : FileName := ⟨id.toText, some "sec"⟩

/-- `Path::with_extension("tmp")`. -/
def temporary (name : FileName) : FileName := ⟨name.stem, some "tmp"⟩

end FileName

def fileVersion : UInt64 := 1

structure File where
  id : Ulid
  rc : UInt64
  dek : Bytes
  «meta» : Bytes
  val : Bytes
  deriving DecidableEq

def File.encode (file : File) : Bytes :=
  MapBuilder.new
    |>.insert "dek" (Writer.bytes file.dek)
    |>.insert "id" (Writer.bytes file.id.val)
    |>.insert "meta" (Writer.bytes file.«meta»)
    |>.insert "rc" (Writer.u64 file.rc)
    |>.insert "v" (Writer.u64 fileVersion)
    |>.insert "value" (Writer.bytes file.val)
    |>.finish

structure FileFields where
  id : Option Ulid
  rc : Option UInt64
  dek : Option Bytes
  «meta» : Option Bytes
  val : Option Bytes
  v : Option UInt64

namespace FileFields

def initial : FileFields := ⟨none, none, none, none, none, none⟩

def read (key : String) (fields : FileFields) : Read StoreError FileFields :=
  match key with
  | "dek" => return { fields with dek := some (← bytes) }
  | "id" => return { fields with id := some (← byteArray 16) }
  | "meta" => return { fields with «meta» := some (← bytes) }
  | "rc" => return { fields with rc := some (← u64) }
  | "v" => return { fields with v := some (← u64) }
  | "value" => return { fields with val := some (← bytes) }
  | _ => throw .corrupt

def file (fields : FileFields) : Except StoreError File :=
  if fields.v ≠ some fileVersion then
    .error .corrupt
  else
    match fields.id, fields.rc, fields.dek, fields.«meta», fields.val with
    | some id, some rc, some dek, some «meta», some val => .ok ⟨id, rc, dek, «meta», val⟩
    | _, _, _, _, _ => .error .corrupt

end FileFields

namespace File

def decode (bytes : Bytes) : Except StoreError File := do
  (← decodeAll (readMap .initial FileFields.read) bytes).file

def aad (label : String) (id : Ulid) (rc : UInt64) : Bytes :=
  utf8 "eclipse/brokerd/" ++ utf8 label ++ utf8 "/v1" ++ id.val ++ bigEndian 8 rc.toNat

def openMeta [Aead] (file : File) (master : FixedBytes 32) : Except StoreError Meta := do
  let dek ← (Aead.«open» master.val (aad "dek" file.id file.rc) file.dek).mapError .crypto
  let plain ← (Aead.«open» dek (aad "meta" file.id file.rc) file.«meta»).mapError .crypto
  let record ← (Meta.decode plain).mapError .record
  if record.id ≠ file.id ∨ record.rotationCounter ≠ file.rc then
    throw .corrupt
  else
    return record

end File

/-! ## The store -/

/-- Large enough for an RSA-4096 OpenSSH key. -/
def maxValue : Nat := 16 * 1024

structure Entry where
  «meta» : Meta
  path : FileName
  deriving DecidableEq

/-- An open store. Its file operations and its source of randomness do not fail. -/
structure Store where
  master : FixedBytes 32
  index : Finmap fun _ : String => Entry
  deriving DecidableEq

structure Draws where
  dek : FixedBytes 32
  dekNonce : FixedBytes 24
  metaNonce : FixedBytes 24
  valNonce : FixedBytes 24

namespace Store

section Calls

variable [Aead]

/-- Takes one directory entry into the index. -/
def openEntry (files : Files FileName) (master : FixedBytes 32)
    (index : Finmap fun _ : String => Entry) (path : FileName) :
    Except StoreError (Finmap fun _ : String => Entry) := do
  if path.extension ≠ some "sec" then
    return index
  else
    match files path with
    | none => throw .io
    | some bytes =>
      let record ← (← File.decode bytes).openMeta master
      if path.stem ≠ record.id.toText then
        throw .corrupt
      else if (index.lookup record.name).isSome then
        throw .corrupt
      else
        return index.insert record.name ⟨record, path⟩

/-- Unseals the master key and decrypts every record's metadata. The directory is
listed in any order. -/
def «open» (files : Files FileName) (listing : List FileName) (sealer : Sealer)
    (pass : Option Bytes) : Except StoreError Store := do
  match files .master with
  | none => throw .io
  | some blob =>
    let key ← (sealer.«unseal» blob pass).mapError .«seal»
    match FixedBytes.ofBytes key with
    | none => throw .corrupt
    | some master => return ⟨master, ← listing.foldlM (openEntry files master) ∅⟩

def «meta» (store : Store) (name : String) : Option Meta :=
  (store.index.lookup name).map (·.«meta»)

/-- The file of a record: fresh keys on every write. -/
def fileOf (store : Store) (record : Meta) (value : Bytes) (draws : Draws) : File where
  id := record.id
  rc := record.rotationCounter
  dek := Aead.«seal» store.master draws.dekNonce (File.aad "dek" record.id record.rotationCounter)
    draws.dek.val
  «meta» := Aead.«seal» draws.dek draws.metaNonce (File.aad "meta" record.id record.rotationCounter)
    record.encode
  val := Aead.«seal» draws.dek draws.valNonce (File.aad "val" record.id record.rotationCounter) value

def writeRecord (store : Store) (record : Meta) (value : Bytes) (draws : Draws) :
    FileName × List (FileOp FileName) :=
  let path := FileName.sec record.id
  (path, writeAtomic path.temporary path (store.fileOf record value draws).encode)

/-- The store with a record's entry in its index. -/
def insert (store : Store) (record : Meta) (path : FileName) : Store :=
  { store with index := store.index.insert record.name ⟨record, path⟩ }

/-- `saturating_mul(1000)`. -/
def millis (now : UInt64) : UInt64 := UInt64.ofNat (min (now.toNat * 1000) (2 ^ 64 - 1))

def minted (new : NewSecret) (now : UInt64) (entropy : FixedBytes 10) : Meta where
  name := new.name
  id := Ulid.fromParts (millis now) entropy
  kind := new.kind
  boundTo := new.boundTo
  modes := new.modes
  requiresPrompt := new.requiresPrompt
  rotationHintDays := new.rotationHintDays
  createdUnix := now
  rotationCounter := 0

def add (store : Store) (new : NewSecret) (value : Bytes) (now : UInt64)
    (entropy : FixedBytes 10) (draws : Draws) :
    Except StoreError (Meta × Store × List (FileOp FileName)) := do
  new.validate.mapError .record
  if maxValue < value.length then
    throw .tooLarge
  else if (store.index.lookup new.name).isSome then
    throw .exists
  else
    let record := minted new now entropy
    let (path, ops) := store.writeRecord record value draws
    return (record, store.insert record path, ops)

/-- Replaces the value and increments the rotation counter. -/
def rotate (store : Store) (name : String) (value : Bytes) (draws : Draws) :
    Except StoreError (Meta × Store × List (FileOp FileName)) :=
  if maxValue < value.length then
    .error .tooLarge
  else
    match store.index.lookup name with
    | none => .error .notFound
    | some entry =>
      let record :=
        { entry.«meta» with rotationCounter := entry.«meta».rotationCounter + 1 }
      let (path, ops) := store.writeRecord record value draws
      .ok (record, { store with index := store.index.insert name ⟨record, path⟩ }, ops)

/-- Overwritten with zeros, synced, unlinked. The name is gone from memory before that. -/
def revoke (store : Store) (files : Files FileName) (name : String) :
    Except StoreError Unit × Store × List (FileOp FileName) :=
  match store.index.lookup name with
  | none => (.error .notFound, store, [])
  | some entry =>
    let left := { store with index := store.index.erase name }
    match files entry.path with
    | none => (.error .io, left, [])
    | some bytes => (.ok (), left, shred entry.path bytes.length)

def readValue (store : Store) (files : Files FileName) (name : String) :
    Except StoreError Bytes :=
  match store.index.lookup name with
  | none => .error .notFound
  | some entry => do
    match files entry.path with
    | none => throw .io
    | some bytes =>
      let file ← File.decode bytes
      if file.id ≠ entry.«meta».id ∨ file.rc ≠ entry.«meta».rotationCounter then
        throw .corrupt
      else
        let dek ← (Aead.«open» store.master.val (File.aad "dek" file.id file.rc) file.dek).mapError
          .crypto
        (Aead.«open» dek (File.aad "val" file.id file.rc) file.val).mapError .crypto

end Calls

end Store

end EclipseOS.Brokerd
