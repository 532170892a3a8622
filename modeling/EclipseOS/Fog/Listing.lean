import Mathlib.Algebra.Group.Nat.Defs
import Mathlib.Data.List.Sort
import EclipseOS.Foundation.Versions

/-! # Listings

What the file service knows of a directory: its entries, their metadata as far as it has
been read, and the order they are shown in. -/

namespace EclipseOS.Fog.Views

abbrev Name := List UInt8

scoped instance : LawfulBEq Name := inferInstance

abbrev DirPath := List UInt8

inductive Kind where
  | file
  | dir
  | symlink
  | other
  | unknown
  deriving DecidableEq

structure Entry where
  name : Name
  kind : Kind
  size : Option UInt64 := none
  mtimeNs : Option Int := none
  mode : Option UInt32 := none
  deriving DecidableEq

def Entry.new (name : Name) (kind : Kind) : Entry := { name, kind }

def Entry.isDir (entry : Entry) : Bool := entry.kind = .dir

/-- What follows the last dot of a name, if something stands on both sides of it. -/
def extension (name : Name) : Name :=
  let after := (name.reverse.takeWhile (· ≠ 46)).reverse
  if after.length + 1 < name.length then after else []

/-- The type column. `lower` is the lower-cased lossy text of a name. -/
def Entry.typeLabel (lower : Name → String) (entry : Entry) : String :=
  match entry.kind with
  | .dir => "dir"
  | .symlink => "link"
  | .unknown => ""
  | .other =>
    match entry.mode.map fun mode : UInt32 => mode &&& 0o170000 with
    | some 0o010000 => "fifo"
    | some 0o140000 => "socket"
    | some 0o020000 => "char"
    | some 0o060000 => "block"
    | _ => "other"
  | .file =>
    let ext := extension entry.name
    if ext ≠ [] ∧ ext.length ≤ 8 then lower ext
    else if (entry.mode.any fun mode => mode &&& 0o111 ≠ 0) then "exec"
    else "file"

inductive SortKey where
  | name
  | size
  | modified
  | type
  deriving DecidableEq

structure Sorting where
  key : SortKey := .name
  reverse : Bool := false
  dirsFirst : Bool := true
  deriving DecidableEq

def isDigit (byte : UInt8) : Bool := 48 ≤ byte ∧ byte ≤ 57

def toAsciiLowercase (byte : UInt8) : UInt8 :=
  if 65 ≤ byte ∧ byte ≤ 90 then byte + 32 else byte

/-- A digit run with its leading zeros stripped, and what follows it. -/
def digitRun (bytes : Name) : Name × Name :=
  ((bytes.takeWhile isDigit).dropWhile (· = 48), bytes.dropWhile isDigit)

/-- Digit runs by their value, everything else without regard to case; `whole` breaks ties.
Every step takes a byte at least, so the first name's length is fuel enough. -/
def naturalFrom (whole : Ordering) : Nat → Name → Name → Ordering
  | fuel + 1, a :: as, b :: bs =>
    if isDigit a ∧ isDigit b then
      let (runA, restA) := digitRun (a :: as)
      let (runB, restB) := digitRun (b :: bs)
      match (compare runA.length runB.length).then (compare runA runB) with
      | .eq => naturalFrom whole fuel restA restB
      | order => order
    else
      match compare (toAsciiLowercase a) (toAsciiLowercase b) with
      | .eq => naturalFrom whole fuel as bs
      | order => order
  | _, as, bs => (compare as.length bs.length).then whole

def natural (a b : Name) : Ordering := naturalFrom (compare a b) a.length a b

/-- Known before unknown, whatever the direction. -/
def known (a b : Bool) : Ordering := compare b a

def compareBy (lower : Name → String) (sort : Sorting) (a b : Entry) : Ordering :=
  let group := if sort.dirsFirst then compare b.isDir a.isDir else .eq
  let (unknown, key) : Ordering × Ordering :=
    match sort.key with
    | .name => (.eq, .eq)
    | .size =>
      if a.isDir ∧ b.isDir then (.eq, .eq)
      else (known a.size.isSome b.size.isSome, compare a.size b.size)
    | .modified => (known a.mtimeNs.isSome b.mtimeNs.isSome, compare a.mtimeNs b.mtimeNs)
    | .type => (.eq, compare (a.typeLabel lower) (b.typeLabel lower))
  let keyed := key.then (natural a.name b.name)
  (group.then unknown).then (if sort.reverse then keyed.swap else keyed)

/-- The display order of entries, as positions of 32 bits. -/
def orderBy (lower : Name → String) (entries : List Entry) (sort : Sorting) : List Nat :=
  ((entries.zipIdx.take (entries.length % 2 ^ 32)).insertionSort fun a b =>
    compareBy lower sort a.1 b.1 ≠ .gt).map (·.2)

/-- The entry of a name: the last one, as a map made of the entries keeps it. -/
def byName (entries : List Entry) (name : Name) : Option Entry :=
  entries.reverse.find? (·.name = name)

structure Diff where
  removed : List Name
  added : List Entry
  changed : List Entry
  deriving DecidableEq

def Diff.isEmpty (d : Diff) : Bool := d.removed = [] ∧ d.added = [] ∧ d.changed = []

/-- An entry stays, with other metadata perhaps. -/
def stays (old : List Entry) (entry : Entry) : Bool :=
  (byName old entry.name).any (·.kind = entry.kind)

def diff (old new : List Entry) : Diff where
  removed := (old.filter fun entry => !stays new entry).map (·.name)
  added := new.filter fun entry => !stays old entry
  changed := new.filter fun entry => stays old entry ∧ byName old entry.name ≠ some entry

/-- Drop what is removed, replace in place what changed, append what is new. -/
def applyDiff (entries : List Entry) (d : Diff) : List Entry :=
  ((entries.filter fun entry => entry.name ∉ d.removed).map fun entry =>
    (byName d.changed entry.name).getD entry) ++ d.added

def Entry.missing (entry : Entry) : Bool := entry.mode.isNone

/-- What `statx` says of a name. -/
structure Stat where
  size : UInt64
  mtimeNs : Int
  mode : UInt32
  deriving DecidableEq

def kindOfMode (mode : UInt32) : Kind :=
  match mode &&& 0o170000 with
  | 0o100000 => .file
  | 0o040000 => .dir
  | 0o120000 => .symlink
  | _ => .other

/-- The entry with its metadata, as far as its name can be looked up. -/
def fill (stat : Name → Option Stat) (entry : Entry) : Option Entry :=
  (stat entry.name).map fun st =>
    { name := entry.name
      kind := if entry.kind = .unknown then kindOfMode st.mode else entry.kind
      size := some st.size
      mtimeNs := some st.mtimeNs
      mode := some st.mode }

/-- The positions of the entries that lack metadata, in display order. -/
def todo (entries : List Entry) (order : List Nat) : List Nat :=
  order.filter fun i => (entries[i]?).any Entry.missing

structure Listing where
  dir : Nat
  generation : Nat
  entries : List Entry
  order : List Nat
  mtimeNs : Option Int
  deriving DecidableEq

end EclipseOS.Fog.Views
