import EclipseOS.PolicyEval.Cbor.Delimited
import EclipseOS.Policyd.Dispatch

/-! # Install records

An approved install as it is written to the state directory, and as it is read when the
daemon starts. -/

namespace EclipseOS.Policyd

open Foundation PolicyEval Cbor

/-! ## Paths as text -/

/-- `utf8_char_width`: the bytes of a character that starts with this one. -/
def utf8CharWidth (first : UInt8) : Nat :=
  if first < 0x80 then 1
  else if first < 0xc2 then 0
  else if first < 0xe0 then 2
  else if first < 0xf0 then 3
  else if first < 0xf5 then 4
  else 0

/-- Whether a character that starts with this byte goes on with that one. -/
def goesOn (first second : UInt8) : Bool :=
  (if first = 0xe0 then 0xa0 else if first = 0xf0 then 0x90 else 0x80) ≤ second ∧
    second ≤ (if first = 0xed then 0x9f else if first = 0xf4 then 0x8f else 0xbf)

/-- How many bytes after the first are of its character, whether or not it is whole. -/
def continued (first : UInt8) : Bytes → Nat
  | [] => 0
  | second :: rest =>
    if 2 ≤ utf8CharWidth first ∧ goesOn first second then
      1 + ((rest.take (utf8CharWidth first - 2)).takeWhile fun byte => byte &&& 0xc0 = 0x80).length
    else 0

/-- Each character that is not whole is replaced. -/
def replaceFrom : (left : Nat) → Bytes → String
  | 0, _ | _, [] => ""
  | left + 1, first :: rest =>
    let n := continued first rest
    (fromUtf8 (first :: rest.take n)).getD "\uFFFD" ++ replaceFrom left (rest.drop n)

/-- `to_string_lossy`. -/
def toStringLossy (path : Bytes) : String :=
  (fromUtf8 path).getD (replaceFrom path.length path)

/-! ## The record -/

/-- An install as it is written, its directory the bytes of the path. -/
structure InstallRecord where
  id : String
  version : String
  dir : Bytes
  manifestHash : Digest
  lines : List String
  seq : UInt64
  deriving DecidableEq

def InstallRecord.ofManifest (manifest : Manifest) (dir : Bytes) (hash : Digest) (seq : UInt64) :
    InstallRecord where
  id := manifest.id
  version := manifest.version
  dir := dir
  manifestHash := hash
  lines := manifest.capabilities.map (·.line)
  seq := seq

def encodeInstall (install : InstallRecord) : Bytes :=
  MapBuilder.new
    |>.insert "id" (Writer.text install.id)
    |>.insert "version" (Writer.text install.version)
    |>.insert "dir" (Writer.text (toStringLossy install.dir))
    |>.insert "manifest_hash" (Writer.bytes install.manifestHash.val)
    |>.insert "seq" (Writer.u64 install.seq)
    |>.insert "lines" (arrayOf Writer.text install.lines)
    |>.finish

namespace InstallRecord

structure Partial where
  id : Option String
  version : Option String
  dir : Option Bytes
  hash : Option Digest
  seq : Option UInt64
  lines : Option (List String)

def Partial.blank : Partial := ⟨none, none, none, none, none, none⟩

def Partial.read (key : String) (found : Partial) : Read Cbor.Error Partial :=
  match key with
  | "dir" => do return { found with dir := some (utf8 (← text)) }
  | "id" => do return { found with id := some (← text) }
  | "lines" => do return { found with lines := some (← listUpTo 256 text) }
  | "manifest_hash" => do return { found with hash := some (← byteArray 32) }
  | "seq" => do return { found with seq := some (← u64) }
  | "version" => do return { found with version := some (← text) }
  | _ => fail .type

def Partial.whole (found : Partial) : Option InstallRecord := do
  return ⟨← found.id, ← found.version, ← found.dir, ← found.hash, ← found.lines, ← found.seq⟩

end InstallRecord

def decodeInstall (bytes : Bytes) : Option InstallRecord :=
  (decodeAll (readMap InstallRecord.Partial.blank InstallRecord.Partial.read) bytes).toOption.bind
    InstallRecord.Partial.whole

/-! ## Reading a record back -/

namespace InstallRecord

instance (key : String) (found : Partial) : Local (Partial.read key found) := by
  unfold Partial.read
  split <;> infer_instance

def parts (install : InstallRecord) : Partial where
  id := some install.id
  version := some install.version
  dir := some install.dir
  hash := some install.manifestHash
  seq := some install.seq
  lines := some install.lines

def schema : Schema InstallRecord :=
  [("id", fun install => some (Writer.text install.id)),
    ("dir", fun install => some (Writer.text (toStringLossy install.dir))),
    ("seq", fun install => some (Writer.u64 install.seq)),
    ("lines", fun install => some (arrayOf Writer.text install.lines)),
    ("version", fun install => some (Writer.text install.version)),
    ("manifest_hash", fun install => some (Writer.bytes install.manifestHash.val))]

theorem schema_ascend : NamesAscend (schema.map Prod.fst) := by
  show NamesAscend ["id", "dir", "seq", "lines", "version", "manifest_hash"]
  decide

theorem encodeInstall_eq (install : InstallRecord) :
    encodeInstall install = mapBytes (presentRows (schema.rows install)) := by
  simp only [encodeInstall, MapBuilder.new_eq_ofRows, MapBuilder.insert_ofRows, List.nil_append,
    List.cons_append]
  exact Schema.finish_of_order schema_ascend [0, 4, 1, 5, 2, 3] (by decide) rfl

theorem whole_eq_some {found : Partial} {install : InstallRecord} :
    found.whole = some install ↔ found = install.parts := by
  obtain ⟨id, version, dir, hash, seq, lines⟩ := found
  obtain ⟨_, _, _, _, _, _⟩ := install
  cases id <;> cases version <;> cases dir <;> cases hash <;> cases seq <;> cases lines <;>
    simp [Partial.whole, parts, and_left_comm, and_comm]

/-- A directory that is read is text, and the lines are no more than the reader takes. -/
structure Partial.Readable (found : Partial) : Prop where
  dir : ∀ dir ∈ found.dir, (fromUtf8 dir).isSome
  lines : ∀ lines ∈ found.lines, lines.length ≤ 256

theorem Partial.read_readable {key : String} {before after : Partial} {depth : Nat} {value : Bytes}
    (accepts : Accepts (Partial.read key before) depth after value) (readable : before.Readable) :
    after.Readable := by
  unfold Partial.read at accepts
  split at accepts
  case h_1 =>
    obtain ⟨dir, -, same⟩ := accepts_store.mp accepts
    subst same
    refine ⟨?_, readable.lines⟩
    intro found isFound
    cases isFound
    rw [fromUtf8_utf8]
    rfl
  case h_3 =>
    obtain ⟨lines, accepted, same⟩ := accepts_store.mp accepts
    subst same
    refine ⟨readable.dir, ?_⟩
    intro found isFound
    cases isFound
    exact length_le_of_accepts_listUpTo accepted
  case h_7 => exact absurd accepts not_accepts_fail
  all_goals
    obtain ⟨found, -, same⟩ := accepts_store.mp accepts
    subst same
    exact ⟨readable.dir, readable.lines⟩

theorem utf8_toStringLossy {path : Bytes} (isText : (fromUtf8 path).isSome) :
    utf8 (toStringLossy path) = path := by
  obtain ⟨text, decoded⟩ := Option.isSome_iff_exists.mp isText
  rw [toStringLossy, decoded, Option.getD_some]
  exact utf8_of_fromUtf8 decoded

theorem accepts_record_of {install : InstallRecord} (isText : (fromUtf8 install.dir).isSome)
    (within : install.lines.length ≤ 256) (short : (encodeInstall install).length < 2 ^ 64) :
    Accepts (readMap .blank Partial.read) 0 install.parts (encodeInstall install) := by
  rw [encodeInstall_eq] at short ⊢
  have each : ∀ row ∈ schema.rows install, ∀ value ∈ row.2, value.length < 2 ^ 64 := by
    intro row member value isValue
    obtain ⟨name, found⟩ := row
    cases isValue
    exact lt_of_le_of_lt (length_le_record member) short
  simp only [schema, Schema.rows, List.map_cons, List.map_nil, List.forall_mem_cons,
    Option.mem_def, Option.some.injEq, forall_eq', List.not_mem_nil, false_implies, implies_true,
    and_true] at each
  obtain ⟨package, dir, -, lines, version, hash⟩ := each
  have texts {value : String} (short : (Writer.text value).length < 2 ^ 64) :
      Accepts (text : Read Cbor.Error String) 1 value (Writer.text value) :=
    accepts_text.mpr ⟨rfl, lt_of_le_of_lt (length_le_text value) short⟩
  have linesRead : Accepts (listUpTo 256 text : Read Cbor.Error (List String)) 1 install.lines
      (arrayOf Writer.text install.lines) := by
    have reads : ∀ line ∈ install.lines,
        Accepts (text : Read Cbor.Error String) 1 line (Writer.text line) :=
      fun line member => texts (lt_of_le_of_lt (length_le_arrayOf member) lines)
    have read := accepts_listUpTo reads within (by omega)
    rwa [List.map_id'] at read
  have hashRead : Accepts (byteArray 32 : Read Cbor.Error Digest) 1 install.manifestHash
      (Writer.bytes install.manifestHash.val) :=
    accepts_byteArray.mpr ⟨rfl, by decide⟩
  refine Accepts.record schema_ascend (by decide) (by decide) ?_
  refine rows_cons_iff.mpr ⟨_, accepts_store.mpr ⟨_, texts package, rfl⟩, ?_⟩
  refine rows_cons_iff.mpr ⟨_, accepts_store.mpr ⟨_, texts dir, rfl⟩, ?_⟩
  refine rows_cons_iff.mpr ⟨_, accepts_store.mpr ⟨_, accepts_u64.mpr rfl, rfl⟩, ?_⟩
  refine rows_cons_iff.mpr ⟨_, accepts_store.mpr ⟨_, linesRead, rfl⟩, ?_⟩
  refine rows_cons_iff.mpr ⟨_, accepts_store.mpr ⟨_, texts version, rfl⟩, ?_⟩
  refine rows_cons_iff.mpr ⟨_, accepts_store.mpr ⟨_, hashRead, rfl⟩, ?_⟩
  refine rows_nil_iff.mpr ?_
  rw [utf8_toStringLossy isText]
  rfl

end InstallRecord

open InstallRecord in
/-- A record is read back if its path is text and its lines are no more than the reader
takes, and not otherwise. -/
theorem decodeInstall_encodeInstall_iff {install : InstallRecord}
    (short : (encodeInstall install).length < 2 ^ 64) :
    decodeInstall (encodeInstall install) = some install ↔
      install.lines.length ≤ 256 ∧ (fromUtf8 install.dir).isSome := by
  have read : decodeInstall (encodeInstall install) = some install ↔
      Accepts (readMap .blank Partial.read) 0 install.parts (encodeInstall install) := by
    simp only [decodeInstall, Option.bind_eq_some_iff, decodeAll_toOption, whole_eq_some,
      exists_eq_right]
  rw [read]
  constructor
  · intro accepts
    obtain ⟨-, rows, -, -, -, -, chain⟩ := accepts_readMap.mp accepts
    have readable : install.parts.Readable :=
      chain.preserves (fun _ _ _ _ => Partial.read_readable) ⟨nofun, nofun⟩
    exact ⟨readable.lines _ rfl, readable.dir _ rfl⟩
  · intro ⟨within, isText⟩
    exact accepts_record_of isText within short

end EclipseOS.Policyd
