import EclipseOS.Foundation.FramedLog
import EclipseOS.Foundation.PrefixCodec
import EclipseOS.Foundation.Table

/-! # The file service's jobs

What clients ask the file service for, and how it is spelled. -/

namespace EclipseOS.Fog

open Foundation
open PrefixCodec (Vec)

abbrev RawPath := Vec UInt8

inductive ConflictPolicy where
  | ask
  | skip
  | rename
  | replace
  | fail
  deriving DecidableEq

inductive JobSpec where
  | copy (srcs : Vec RawPath) (dest : RawPath) (onConflict : ConflictPolicy)
  | move (srcs : Vec RawPath) (dest : RawPath) (onConflict : ConflictPolicy)
  | rename (path newName : RawPath) (onConflict : ConflictPolicy)
  | trash (paths : Vec RawPath) (onConflict : ConflictPolicy)
  | delete (paths : Vec RawPath) (onConflict : ConflictPolicy)
  | mkdir (path : RawPath) (onConflict : ConflictPolicy)
  | createFile (path : RawPath) (onConflict : ConflictPolicy)
  | restore (trashIds : Vec RawPath) (onConflict : ConflictPolicy)
  deriving DecidableEq

def path : PrefixCodec RawPath := .bytes

def conflictPolicy : PrefixCodec ConflictPolicy :=
  .enum [.bare .ask, .bare .skip, .bare .rename, .bare .replace, .bare .fail] (by decide) (by
    intro policy
    cases policy <;> decide)

def JobSpec.variants : List (PrefixCodec.Variant JobSpec) :=
  [.of ((PrefixCodec.vec path).pair (path.pair conflictPolicy))
      (fun (srcs, dest, policy) => .copy srcs dest policy)
      (fun | .copy srcs dest policy => some (srcs, dest, policy) | _ => none),
    .of ((PrefixCodec.vec path).pair (path.pair conflictPolicy))
      (fun (srcs, dest, policy) => .move srcs dest policy)
      (fun | .move srcs dest policy => some (srcs, dest, policy) | _ => none),
    .of (path.pair (path.pair conflictPolicy))
      (fun (path, newName, policy) => .rename path newName policy)
      (fun | .rename path newName policy => some (path, newName, policy) | _ => none),
    .of ((PrefixCodec.vec path).pair conflictPolicy)
      (fun (paths, policy) => .trash paths policy)
      (fun | .trash paths policy => some (paths, policy) | _ => none),
    .of ((PrefixCodec.vec path).pair conflictPolicy)
      (fun (paths, policy) => .delete paths policy)
      (fun | .delete paths policy => some (paths, policy) | _ => none),
    .of (path.pair conflictPolicy)
      (fun (path, policy) => .mkdir path policy)
      (fun | .mkdir path policy => some (path, policy) | _ => none),
    .of (path.pair conflictPolicy)
      (fun (path, policy) => .createFile path policy)
      (fun | .createFile path policy => some (path, policy) | _ => none),
    .of ((PrefixCodec.vec path).pair conflictPolicy)
      (fun (ids, policy) => .restore ids policy)
      (fun | .restore ids policy => some (ids, policy) | _ => none)]

def jobSpec : PrefixCodec JobSpec :=
  .enum JobSpec.variants (by decide) (by
    intro spec
    cases spec <;> simp [JobSpec.variants, PrefixCodec.Variant.of])

end EclipseOS.Fog

/-! ## The undo journal

One record after another in an append-only file: what jobs did, and how far each of them
has come. -/

namespace EclipseOS.Fog

open Foundation
open PrefixCodec (Vec Signed)

def KEEP_OPS : Nat := 200

def KEEP_SECS : Int := 30 * 24 * 3600

/-- One effect of a job, with the identity of what it produced. -/
inductive Item where
  | moved (source dest : RawPath) (ino : UInt64) (mtimeNs : Signed 127)
  | copied (path : RawPath) (ino : UInt64) (mtimeNs : Signed 127)
  | made (path : RawPath) (ino : UInt64) (mtimeNs : Signed 127) (dir : Bool)
  | trashed (orig files info : RawPath) (ino : UInt64) (mtimeNs : Signed 127)
  | restored (path : RawPath) (ino : UInt64) (mtimeNs : Signed 127)
  | deleted (path : RawPath)
  deriving DecidableEq

structure Entry where
  seq : UInt64
  timeS : Signed 63
  undoable : Bool
  items : Vec Item
  deriving DecidableEq

inductive Record where
  | op (entry : Entry)
  | undone (seq : UInt64)
  | begin (run : UInt64) (spec : Option JobSpec)
  | created (run : UInt64) (path : RawPath) (ino : UInt64)
  | aside (run : UInt64) (target aside : RawPath)
  | commit (run : UInt64)
  | finish (run : UInt64)
  deriving DecidableEq

/-! ## Spelling -/

section
open PrefixCodec

def Item.variants : List (Variant Item) :=
  [.of (path.pair (path.pair (u64.pair i128)))
      (fun (source, dest, ino, mtime) => .moved source dest ino mtime)
      (fun | .moved source dest ino mtime => some (source, dest, ino, mtime) | _ => none),
    .of (path.pair (u64.pair i128))
      (fun (path, ino, mtime) => .copied path ino mtime)
      (fun | .copied path ino mtime => some (path, ino, mtime) | _ => none),
    .of (path.pair (u64.pair (i128.pair bool)))
      (fun (path, ino, mtime, dir) => .made path ino mtime dir)
      (fun | .made path ino mtime dir => some (path, ino, mtime, dir) | _ => none),
    .of (path.pair (path.pair (path.pair (u64.pair i128))))
      (fun (orig, files, info, ino, mtime) => .trashed orig files info ino mtime)
      (fun
        | .trashed orig files info ino mtime => some (orig, files, info, ino, mtime)
        | _ => none),
    .of (path.pair (u64.pair i128))
      (fun (path, ino, mtime) => .restored path ino mtime)
      (fun | .restored path ino mtime => some (path, ino, mtime) | _ => none),
    .of path (fun path => .deleted path) (fun | .deleted path => some path | _ => none)]

def item : PrefixCodec Item :=
  .enum Item.variants (by decide) (by
    intro item
    cases item <;> simp [Item.variants, Variant.of])

def entry : PrefixCodec Entry :=
  (u64.pair (i64.pair (bool.pair (vec item)))).map
    (fun (seq, timeS, undoable, items) => ⟨seq, timeS, undoable, items⟩)
    (fun entry => (entry.seq, entry.timeS, entry.undoable, entry.items))
    fun _ => rfl

def Record.variants : List (Variant Record) :=
  [.of entry (fun entry => .op entry) (fun | .op entry => some entry | _ => none),
    .of u64 (fun seq => .undone seq) (fun | .undone seq => some seq | _ => none),
    .of (u64.pair (option jobSpec)) (fun (run, spec) => .begin run spec)
      (fun | .begin run spec => some (run, spec) | _ => none),
    .of (u64.pair (path.pair u64)) (fun (run, path, ino) => .created run path ino)
      (fun | .created run path ino => some (run, path, ino) | _ => none),
    .of (u64.pair (path.pair path)) (fun (run, target, put) => .aside run target put)
      (fun | .aside run target put => some (run, target, put) | _ => none),
    .of u64 (fun run => .commit run) (fun | .commit run => some run | _ => none),
    .of u64 (fun run => .finish run) (fun | .finish run => some run | _ => none)]

def record : PrefixCodec Record :=
  .enum Record.variants (by decide) (by
    intro record
    cases record <;> simp [Record.variants, Variant.of])

end

def fnv1a (bytes : Bytes) : UInt32 :=
  bytes.foldl (fun hash byte => (hash ^^^ byte.toUInt32) * 0x01000193) 0x811c9dc5

def framing : Framing Record := ⟨record.encode, record.read, fnv1a, record.read_encode⟩

/-! ## Loading and recovery -/

/-- A run without its end, as far as the journal knows. -/
structure Intent where
  spec : Option JobSpec
  created : List (RawPath × UInt64)
  asides : List (RawPath × RawPath)
  stale : List RawPath
  deriving DecidableEq

structure Loaded where
  entries : List Entry
  maxSeq : UInt64
  runs : Table UInt64 Intent

namespace Loaded

def empty : Loaded := ⟨[], 0, ∅⟩

def update (loaded : Loaded) (run : UInt64) (change : Intent → Intent) : Loaded :=
  match loaded.runs.lookup run with
  | none => loaded
  | some intent => { loaded with runs := loaded.runs.insert run (change intent) }

def read (loaded : Loaded) : Record → Loaded
  | .op entry =>
    { loaded with
      entries := loaded.entries ++ [entry], maxSeq := max loaded.maxSeq entry.seq }
  | .undone seq => { loaded with entries := loaded.entries.filter (·.seq ≠ seq) }
  | .begin run spec =>
    { loaded with
      maxSeq := max loaded.maxSeq run, runs := loaded.runs.insert run ⟨spec, [], [], []⟩ }
  | .created run path ino =>
    loaded.update run fun intent => { intent with created := intent.created ++ [(path, ino)] }
  | .aside run target aside =>
    loaded.update run fun intent => { intent with asides := intent.asides ++ [(target, aside)] }
  | .commit run =>
    loaded.update run fun intent =>
      { intent with created := [], asides := [], stale := intent.stale ++ intent.asides.map (·.2) }
  | .finish run => { loaded with runs := loaded.runs.erase run }

end Loaded

def load (buf : Bytes) : Loaded := (framing.records buf).foldl .read .empty

theorem load_eq (buf : Bytes) : load buf = (framing.records buf).foldl .read .empty := rfl

inductive Reconcile where
  | removeIf (path : RawPath) (ino : UInt64)
  | putBack (target aside : RawPath)
  | leave (aside : RawPath)
  deriving DecidableEq

/-- What a run created goes, if it is still that node, and what it set aside is renamed back. -/
def recover (intent : Intent) : List Reconcile :=
  intent.created.reverse.map (fun (path, ino) => .removeIf path ino) ++
    intent.asides.reverse.map (fun (target, aside) => .putBack target aside) ++
    intent.stale.map .leave

/-- Every open run is reconciled, in the order of their numbers. -/
def recovery (buf : Bytes) : List (UInt64 × Reconcile) :=
  ((load buf).runs.entries.mergeSort fun a b => a.1 ≤ b.1).flatMap fun ⟨run, intent⟩ =>
    (recover intent).map (run, ·)

/-! ## The journal -/

structure Journal where
  file : Bytes
  /-- Entries not undone, oldest first. -/
  entries : List Entry
  nextSeq : UInt64

/-- How a write ends; one that fails may have written part of its record. -/
inductive Write where
  | done
  | fails (kept : Nat)
  deriving DecidableEq

namespace Journal

def isRecent (nowS : Int) (entry : Entry) : Bool := nowS - entry.timeS.1 ≤ KEEP_SECS

/-- The newest of the entries that are recent enough. -/
def retain (nowS : Int) (entries : List Entry) : List Entry :=
  let recent := entries.filter (isRecent nowS)
  recent.drop (recent.length - KEEP_OPS)

def compact (entries : List Entry) : Bytes :=
  entries.flatMap fun entry => framing.frame (.op entry)

def reopen (buf : Bytes) (nowS : Int) : Journal :=
  let loaded := load buf
  let entries := retain nowS loaded.entries
  ⟨compact entries, entries, loaded.maxSeq + 1⟩

theorem reopen_file (buf : Bytes) (nowS : Int) :
    (reopen buf nowS).file = compact (retain nowS (load buf).entries) := by
  rw [reopen]

theorem reopen_entries (buf : Bytes) (nowS : Int) :
    (reopen buf nowS).entries = retain nowS (load buf).entries := by
  rw [reopen]

def write (journal : Journal) (record : Record) : Write → Journal × Bool
  | .done => ({ journal with file := journal.file ++ framing.frame record }, true)
  | .fails kept =>
    ({ journal with file := journal.file ++ (framing.frame record).take kept }, false)

def begin (journal : Journal) (spec : Option JobSpec) (outcome : Write) :
    Journal × Option UInt64 :=
  let run := journal.nextSeq
  let (journal, written) := journal.write (.begin run spec) outcome
  if written then ({ journal with nextSeq := journal.nextSeq + 1 }, some run)
  else (journal, none)

def nextEntry (journal : Journal) (undoable : Bool) (items : Vec Item) (nowS : Signed 63) :
    Entry :=
  ⟨journal.nextSeq, nowS, undoable, items⟩

def append (journal : Journal) (undoable : Bool) (items : Vec Item) (nowS : Signed 63)
    (outcome : Write) : Journal × Option UInt64 :=
  let entry := journal.nextEntry undoable items nowS
  let (journal, written) := journal.write (.op entry) outcome
  if written then
    let entries := journal.entries ++ [entry]
    ({ journal with
        nextSeq := journal.nextSeq + 1
        entries := if entries.length > KEEP_OPS then entries.tail else entries },
      some entry.seq)
  else (journal, none)

def markUndone (journal : Journal) (seq : UInt64) (outcome : Write) : Journal × Bool :=
  let (journal, written) := journal.write (.undone seq) outcome
  if written then ({ journal with entries := journal.entries.filter (·.seq ≠ seq) }, true)
  else (journal, false)

end Journal

end EclipseOS.Fog
