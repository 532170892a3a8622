import Mathlib.Logic.Function.Basic
import EclipseOS.Fog.Listing

/-! # Directory views

The file service lists directories for its clients, keeps the listings in a cache, and
tells the clients of every new generation. A section under a directory's lock is one step;
what it reads from the disk, which queues are full, and what the cache evicts to make room
are inputs of the step. -/

namespace EclipseOS.Fog.Views

open Foundation (Version)

inductive Reply where
  | dirSnapshot (path : DirPath) (dir generation : Nat) (entries : List Entry)
      (order : List Nat) (complete : Bool)
  | dirDiff (dir generation : Nat) (change : Diff) (order : List Nat) (complete : Bool)
  | sorted (dir : Nat) (sort : Sorting)
  | error (path : DirPath) (errno : Int)
  deriving DecidableEq

structure Content where
  entries : List Entry
  order : List Nat
  deriving DecidableEq

def Listing.version (l : Listing) : Version Nat Content :=
  ⟨l.dir, l.generation, ⟨l.entries, l.order⟩⟩

/-! ## Clients -/

/-- What a client shows of a directory; its selection and filter only drop rows of it. -/
structure Browser where
  path : DirPath
  dir : Option Nat := none
  generation : Nat := 0
  entries : List Entry := []
  order : List Nat := []
  complete : Bool := false
  pending : Option DirPath
  opening : Option DirPath := none
  error : Option (DirPath × Int) := none
  sort : Sorting := {}
  deriving DecidableEq

inductive Effect where
  | nothing
  | list (path : DirPath)
  | unsubscribe (dir : Nat)
  | openFile (path : DirPath)
  deriving DecidableEq

namespace Browser

def new (path : DirPath) : Browser := { path, pending := some path }

def navigate (browser : Browser) (path : DirPath) : Browser :=
  { browser with pending := some path }

def reconnected (browser : Browser) : Browser := { browser with dir := none, generation := 0 }

def setListing (browser : Browser) (dir generation : Nat) (entries : List Entry)
    (order : List Nat) (complete : Bool) : Browser :=
  { browser with dir := some dir, generation, entries, order, complete }

def splitParent (path : DirPath) : Option DirPath :=
  let trimmed := (path.reverse.dropWhile (· = 47)).reverse
  let parent := (trimmed.reverse.dropWhile (· ≠ 47)).reverse.dropLast
  if 47 ∈ trimmed then some (if parent = [] then [47] else parent) else none

/-- `NotADirectory`. -/
def ENOTDIR : Int := 20

/-- An error for the shown, requested or opened path. -/
def onError (browser : Browser) (path : DirPath) (errno : Int) : Browser × Effect :=
  let navigating : Bool := browser.pending = some path
  let asked := if navigating then { browser with pending := none } else browser
  if browser.opening = some path then ({ browser with opening := none }, .nothing)
  else if ¬navigating ∧ path ≠ browser.path then (browser, .nothing)
  else if errno = ENOTDIR ∧ navigating then
    match browser.dir, splitParent path with
    | none, some parent => ({ asked with path := parent }.navigate parent, .list parent)
    | _, _ => ({ asked with opening := some path }, .openFile path)
  else ({ asked with error := some (path, errno) }, .nothing)

def onReply (browser : Browser) : Reply → Browser × Effect
  | .dirSnapshot path dir generation entries order complete =>
    if browser.pending = some path then
      ({ browser.setListing dir generation entries order complete with
          path, pending := none, error := none }, .nothing)
    else if path ≠ browser.path then (browser, .unsubscribe dir)
    else if browser.dir = some dir ∧ generation < browser.generation then (browser, .nothing)
    else (browser.setListing dir generation entries order complete, .nothing)
  | .dirDiff dir generation change order complete =>
    if browser.dir ≠ some dir then (browser, .nothing)
    else if generation ≠ browser.generation + 1 then
      (browser, if generation > browser.generation then .list browser.path else .nothing)
    else
      ({ browser with
          entries := applyDiff browser.entries change, order, generation, complete },
        .nothing)
  | .sorted dir sort =>
    (if browser.dir = some dir then { browser with sort } else browser, .nothing)
  | .error path errno => browser.onError path errno

end Browser

/-! ## The service -/

/-- A client that is told of a directory's changes. -/
structure Sub where
  path : DirPath
  peer : Nat
  dir : Nat
  deriving DecidableEq

/-- The client a request comes from, which gets its replies in line; one that subscribes is
not told of them again. -/
structure Direct where
  peer : Nat
  subscribed : Bool
  deriving DecidableEq

def Direct.skip (direct : Direct) : Option Nat :=
  if direct.subscribed then some direct.peer else none

/-- Where reading the metadata of a listing's entries stands. Batches are read for the
listing `of`, and `seen` is its generation as far as the reader knows. -/
inductive Stage where
  | opened
  | reading (of seen : Nat) (todo : List Entry) (size : Nat)
  | read (of seen : Nat) (todo : List Entry) (size : Nat) (filled : List Entry)
      (resort : Bool) (time : Nat)
  deriving DecidableEq

structure Task where
  raw : DirPath
  direct : Direct
  stage : Stage
  deriving DecidableEq

/-- An entry that a batch replaced: the listing it stood in, the one the batch was read
for, when the metadata it held was read, if it held any, and when the batch was. -/
structure Overwrite where
  listing : Nat
  batch : Nat
  held : Option Nat
  read : Nat
  deriving DecidableEq

/-- The service, what is under way to its clients, and what they show. The last four say
what has happened: the time, when each entry's metadata was read, what was published, and
what batches replaced. -/
structure World where
  slots : DirPath → Option Listing
  pinned : DirPath → Bool
  nextDir : Nat
  subs : List Sub
  defaultSort : Sorting
  folders : DirPath → Option Sorting
  tasks : Nat → Option Task
  spawned : Nat
  queues : Nat → List Reply
  views : Nat → Browser
  clock : Nat
  readAt : Nat → Name → Nat
  published : List (Version Nat Content)
  overwrites : List Overwrite

/-- What a section reads from the disk: the directory's own time, the one taken before a
scan, the scan, and what `statx` says of each name. -/
structure Disk where
  mtime : Except Int Int
  scanned : Option Int
  batches : List (List Entry)
  tail : Except Int (List Entry)
  opens : Bool
  stat : Name → Option Stat

def Disk.listAll (disk : Disk) : Except Int (List Entry) :=
  disk.tail.map (disk.batches.flatten ++ ·)

/-- Which clients' queues are full for a push, and which listings the cache evicts. -/
structure Luck where
  full : Nat → Reply → Bool
  victims : DirPath → Bool

/-- What changed in a directory since its listing was last published. -/
structure Dirty where
  rescan : Bool
  full : Bool
  names : List Name

def Dirty.rescanned : Dirty := ⟨true, false, []⟩

def ENOENT : Int := 2
def EINVAL : Int := 22
def EFBIG : Int := 27

def FIRST : Nat := 256

def BATCH : Nat := 4096

namespace World

section

variable (fits : Reply → Bool) (lower : Name → String) (w : World)

def push (peer : Nat) (reply : Reply) : World :=
  { w with queues := Function.update w.queues peer (w.queues peer ++ [reply]) }

/-- What is sent in the place of a reply that does not fit a frame. -/
def fallback : Reply → Reply
  | .dirSnapshot path .. => .error path EFBIG
  | _ => .error [] EFBIG

/-- A reply in line: it waits for room in the client's queue. -/
def send (peer : Nat) (reply : Reply) : World :=
  if fits reply then w.push peer reply
  else if fits (fallback reply) then w.push peer (fallback reply)
  else w

/-- A push to the subscribers of a directory; one whose queue is full misses it. -/
def broadcast (raw : DirPath) (reply : Reply) (skip : Option Nat) (luck : Luck) : World :=
  { w with
    queues := fun peer =>
      if fits reply ∧ w.subs.any (fun sub => sub.path = raw ∧ sub.peer = peer) ∧
          skip ≠ some peer ∧ ¬luck.full peer reply then
        w.queues peer ++ [reply]
      else w.queues peer }

def note (version : Version Nat Content) : World :=
  { w with published := version :: w.published }

def sortOf (raw : DirPath) : Sorting := (w.folders raw).getD w.defaultSort

/-- Listings the cache evicts to make room; pinned ones stay. -/
def evict (victims : DirPath → Bool) : World :=
  { w with slots := fun raw => if victims raw ∧ ¬w.pinned raw then none else w.slots raw }

def store (raw : DirPath) (listing : Listing) (luck : Luck) : World :=
  evict { w with slots := Function.update w.slots raw (some listing) } luck.victims

def snapshot (raw : DirPath) (l : Listing) (complete : Bool) : Reply :=
  .dirSnapshot raw l.dir l.generation l.entries l.order complete

def fail (raw : DirPath) (errno : Int) (direct : Option Direct) (luck : Luck) : World :=
  let gone : World :=
    { w with
      slots := Function.update w.slots raw none
      pinned := Function.update w.pinned raw false }
  let told := gone.broadcast fits raw (.error raw errno) (direct.bind Direct.skip) luck
  let left : World := { told with subs := told.subs.filter (·.path ≠ raw) }
  match direct with
  | some direct => left.send fits direct.peer (.error raw errno)
  | none => left

/-- Publish the next generation of `cur`: cache it and tell the one who asked and every
other subscriber. Its number, or nothing if nothing changed. -/
def publish (raw : DirPath) (cur : Listing) (change : Diff) (resort : Bool)
    (mtimeNs : Option Int) (direct : Option Direct) (luck : Luck) : World × Option Nat :=
  if change.isEmpty then
    (if mtimeNs ≠ cur.mtimeNs then w.store raw { cur with mtimeNs } luck else w, none)
  else
    let entries := applyDiff cur.entries change
    let sort := w.sortOf raw
    let keyed : Bool := sort.key ≠ .name ∧ change.changed ≠ []
    let order :=
      if resort ∨ keyed ∨ change.removed ≠ [] ∨ change.added ≠ [] then orderBy lower entries sort
      else cur.order
    let generation := cur.generation + 1
    let listing : Listing := ⟨cur.dir, generation, entries, order, mtimeNs⟩
    let reply : Reply := .dirDiff cur.dir generation change order true
    let stored := (w.store raw listing luck).note listing.version
    let told := stored.broadcast fits raw reply (direct.bind Direct.skip) luck
    (match direct with
      | some direct => told.send fits direct.peer reply
      | none => told, some generation)

end

/-- The entries a refresh starts from, and the directory's time then: what a scan finds,
unchanged entries with the metadata they had, or what is cached less what events named. -/
def rescan (cur : Listing) (dirty : Dirty) (disk : Disk) :
    Except Int (List Entry × Option Int) :=
  if dirty.rescan then
    disk.listAll.map fun found =>
      (found.map fun entry =>
        match byName cur.entries entry.name with
        | some old =>
          if old.kind = entry.kind ∧ ¬dirty.full ∧ entry.name ∉ dirty.names then old else entry
        | none => entry,
        disk.scanned)
  else
    .ok (cur.entries.map fun entry =>
      if entry.name ∈ dirty.names then .new entry.name entry.kind else entry, cur.mtimeNs)

/-- A refresh looks an entry up: events named it, or it is new, and it lacks metadata. -/
def wanted (cur : Listing) (dirty : Dirty) (entry : Entry) : Bool :=
  (dirty.full ∨ entry.name ∈ dirty.names ∨ byName cur.entries entry.name = none) ∧ entry.missing

def restat (cur : Listing) (dirty : Dirty) (disk : Disk) (entries : List Entry) : List Entry :=
  if disk.opens then
    entries.map fun entry =>
      if wanted cur dirty entry then (fill disk.stat entry).getD entry else entry
  else entries

/-- The names whose metadata a refresh reads. -/
def reread (cur : Listing) (dirty : Dirty) (disk : Disk) (entries : List Entry) : List Name :=
  if disk.opens then
    (entries.filter fun entry =>
      wanted cur dirty entry ∧ (fill disk.stat entry).isSome).map (·.name)
  else []

def found (cur : Listing) (dirty : Dirty) (disk : Disk) (entries : List Entry) : Diff :=
  diff cur.entries (restat cur dirty disk entries)

/-- The metadata of these entries of a listing was read at a time. -/
def noteRead (w : World) (dir : Nat) (names : List Name) (time : Nat) : World :=
  { w with readAt := fun d name => if d = dir ∧ name ∈ names then time else w.readAt d name }

section

variable (fits : Reply → Bool) (lower : Name → String) (w : World)

/-- Bring `cur` up to date with the directory and publish the difference. -/
def refresh (raw : DirPath) (cur : Listing) (dirty : Dirty) (disk : Disk)
    (direct : Option Direct) (luck : Luck) : World × Bool :=
  match rescan cur dirty disk with
  | .error errno => (w.fail fits raw errno direct luck, false)
  | .ok (entries, mtimeNs) =>
    let read := w.noteRead cur.dir (reread cur dirty disk entries) w.clock
    ((read.publish fits lower raw cur (found cur dirty disk entries) false mtimeNs direct
      luck).1, true)

/-- Uncached: the first batch as a partial snapshot, completed with one diff. -/
def cold (raw : DirPath) (peer : Nat) (disk : Disk) (luck : Luck) : World × Bool :=
  let dir := w.nextDir
  let numbered : World := { w with nextDir := dir + 1 }
  let sort := w.sortOf raw
  match disk.batches, disk.tail with
  | [], .error errno => (numbered.send fits peer (.error raw errno), false)
  | [], .ok tail =>
    let listing : Listing := ⟨dir, 0, tail, orderBy lower tail sort, disk.scanned⟩
    let told := ((numbered.note listing.version).send fits peer
      (snapshot raw listing true)).send fits peer (.sorted dir sort)
    (told.store raw listing luck, true)
  | first :: rest, tail =>
    let part : Listing := ⟨dir, 0, first, orderBy lower first sort, none⟩
    let told := ((numbered.note part.version).send fits peer
      (snapshot raw part false)).send fits peer (.sorted dir sort)
    match tail with
    | .error errno => (told.send fits peer (.error raw errno), false)
    | .ok tail =>
      let added := rest.flatten ++ tail
      let entries := first ++ added
      let order := orderBy lower entries sort
      let listing : Listing := ⟨dir, 1, entries, order, disk.scanned⟩
      let all := (told.note listing.version).send fits peer
        (.dirDiff dir 1 ⟨[], added, []⟩ order true)
      (all.store raw listing luck, true)

def subscribe (peer : Nat) (raw : DirPath) (dir : Nat) : World :=
  { w with
    pinned := Function.update w.pinned raw true
    subs :=
      if w.subs.any fun sub => sub.path = raw ∧ sub.peer = peer then
        w.subs.map fun sub =>
          if sub.path = raw ∧ sub.peer = peer then { sub with dir } else sub
      else w.subs ++ [⟨raw, peer, dir⟩] }

/-- A reader of metadata for what is cached now. -/
def spawn (raw : DirPath) (direct : Direct) : World :=
  { w with
    tasks := Function.update w.tasks w.spawned (some ⟨raw, direct, .opened⟩)
    spawned := w.spawned + 1 }

def isAbsolute (raw : DirPath) : Bool := raw.head? = some 47

/-- The cached snapshot or a cold listing, as far as it is under the directory's lock. -/
def list (raw : DirPath) (direct : Direct) (disk : Disk) (luck : Luck) : World × Bool :=
  match w.slots raw with
  | some old =>
    let told := ((w.note old.version).send fits direct.peer (snapshot raw old true)).send fits
      direct.peer (.sorted old.dir (w.sortOf raw))
    match disk.mtime with
    | .error errno => (told.fail fits raw errno (some direct) luck, false)
    | .ok mtime =>
      if some mtime ≠ old.mtimeNs then
        told.refresh fits lower raw old .rescanned disk (some direct) luck
      else (told.evict luck.victims, true)
  | none => w.cold fits lower raw direct.peer disk luck

/-- `ListDir`, and `Subscribe` with `direct.subscribed`. -/
def openDir (raw : DirPath) (direct : Direct) (disk : Disk) (luck : Luck) : World :=
  if isAbsolute raw then
    match w.list fits lower raw direct disk luck with
    | (listed, false) => listed
    | (listed, true) =>
      let joined :=
        match direct.subscribed, listed.slots raw with
        | true, some l => listed.subscribe direct.peer raw l.dir
        | _, _ => listed
      joined.spawn raw direct
  else w.send fits direct.peer (.error raw EINVAL)

/-- The listing in another order is its next generation. -/
def reorder (raw : DirPath) (cur : Listing) (order : List Nat) (peer : Nat) (luck : Luck) :
    World :=
  let generation := cur.generation + 1
  let listing : Listing := { cur with generation, order }
  let reply : Reply := .dirDiff cur.dir generation ⟨[], [], []⟩ order true
  (((w.store raw listing luck).note listing.version).broadcast fits raw reply (some peer)
    luck).send fits peer reply

/-- `SetSort`; `raw` is the path of the listing `dir`, found before the lock was taken. -/
def setSort (raw : Option DirPath) (dir : Nat) (sort : Sorting) (peer : Nat) (luck : Luck) :
    World :=
  match raw, raw.bind w.slots with
  | some raw, some cur =>
    if cur.dir = dir then
      let kept : World := { w with folders := Function.update w.folders raw (some sort) }
      let order := orderBy lower cur.entries sort
      let ordered := if order ≠ cur.order then kept.reorder fits raw cur order peer luck else kept
      (ordered.broadcast fits raw (.sorted dir sort) (some peer) luck).send fits peer
        (.sorted dir sort)
    else w.send fits peer (.error [] ENOENT)
  | _, _ => w.send fits peer (.error [] ENOENT)

def unpinOrphans (subs : List Sub) : World :=
  { w with
    subs
    pinned := fun raw =>
      w.pinned raw ∧ (w.subs.any (·.path = raw) → subs.any (·.path = raw)) }

def unsubscribe (peer dir : Nat) : World :=
  match w.subs.find? fun sub => sub.peer = peer ∧ sub.dir = dir with
  | some sub => w.unpinOrphans (w.subs.filter (· ≠ sub))
  | none => w

def dropPeer (peer : Nat) : World := w.unpinOrphans (w.subs.filter (·.peer ≠ peer))

/-- The watcher saw `dirty` in `raw`. -/
def onChange (raw : DirPath) (dirty : Dirty) (disk : Disk) (luck : Luck) : World :=
  match w.slots raw with
  | some cur =>
    if isAbsolute raw then (w.refresh fits lower raw cur dirty disk none luck).1 else w
  | none => w

def recheck (raw : DirPath) (disk : Disk) (luck : Luck) : World :=
  match w.slots raw with
  | some cur =>
    if isAbsolute raw then
      match disk.mtime with
      | .error errno => w.fail fits raw errno none luck
      | .ok mtime =>
        if some mtime = cur.mtimeNs then w
        else (w.refresh fits lower raw cur .rescanned disk none luck).1
    else w
  | none => w

end

/-! ## Reading metadata -/

/-- A batch's entry is still owed what the batch read of it. -/
def owed (entries : List Entry) (filled : Entry) : Bool :=
  (byName entries filled.name).any fun old =>
    old.missing ∧ (old.kind = filled.kind ∨ old.kind = .unknown)

/-- The entries of a batch that are published onto `cur`. -/
def kept (cur : Listing) (seen : Nat) (filled : List Entry) : List Entry :=
  if cur.generation ≠ seen then filled.filter (owed cur.entries) else filled

/-- What a batch replaces in `cur`. -/
def replaced (w : World) (cur : Listing) (of time : Nat) (batch : List Entry) :
    List Overwrite :=
  batch.filterMap fun filled =>
    (byName cur.entries filled.name).map fun old =>
      ⟨cur.dir, of, if old.missing then none else some (w.readAt cur.dir old.name), time⟩

/-- A batch is published onto `cur`. -/
def noteBatch (w : World) (cur : Listing) (of time : Nat) (batch : List Entry) : World :=
  { w.noteRead cur.dir (batch.map (·.name)) time with
    overwrites := w.replaced cur of time batch ++ w.overwrites }

def setStage (w : World) (i : Nat) (task : Task) (stage : Option Stage) : World :=
  { w with
    tasks := Function.update w.tasks i (stage.map fun stage => { task with stage }) }

/-- The reader takes what is cached as what it reads for. -/
def begin (w : World) (i : Nat) (opens : Bool) : World :=
  match w.tasks i with
  | some task =>
    match task.stage, w.slots task.raw with
    | .opened, some cur =>
      let owing := (todo cur.entries cur.order).filterMap (cur.entries[·]?)
      w.setStage i task
        (if owing ≠ [] ∧ opens then some (.reading cur.dir cur.generation owing FIRST)
          else none)
    | .opened, none => w.setStage i task none
    | _, _ => w
  | none => w

/-- The next batch is read; the lock is not held. -/
def readBatch (w : World) (i : Nat) (stat : Name → Option Stat) : World :=
  match w.tasks i with
  | some task =>
    match task.stage with
    | .reading _ _ [] _ => w.setStage i task none
    | .reading of seen (entry :: rest) size =>
      let chunk := (entry :: rest).take size
      let left := (entry :: rest).drop size
      let filled := chunk.filterMap (fill stat)
      let resort := chunk.any fun e => (fill stat e).any (·.kind ≠ e.kind)
      w.setStage i task <| some <|
        if filled = [] then .reading of seen left BATCH
        else .read of seen left BATCH filled resort w.clock
    | _ => w
  | none => w

section

variable (fits : Reply → Bool) (lower : Name → String) (w : World)

def publishBatch (i : Nat) (luck : Luck) : World :=
  match w.tasks i with
  | some task =>
    match task.stage, w.slots task.raw with
    | .read .., none => w.setStage i task none
    | .read of seen left size filled resort time, some cur =>
      let batch := kept cur seen filled
      let (published, generation) := (w.noteBatch cur of time batch).publish fits lower
        task.raw cur ⟨[], [], batch⟩ resort cur.mtimeNs (some task.direct) luck
      published.setStage i task
        (some (.reading of (generation.getD cur.generation) left size))
    | _, _ => w
  | none => w

/-- The client takes the oldest reply that is under way to it. -/
def deliver (peer : Nat) : World :=
  match w.queues peer with
  | reply :: rest =>
    { w with
      queues := Function.update w.queues peer rest
      views := Function.update w.views peer ((w.views peer).onReply reply).1 }
  | [] => w

end

end World

/-! ## Runs -/

inductive Input where
  | connect (peer : Nat) (browser : Browser)
  | navigate (peer : Nat) (path : DirPath)
  | openDir (raw : DirPath) (direct : Direct) (disk : Disk) (luck : Luck)
  | setSort (raw : Option DirPath) (dir : Nat) (sort : Sorting) (peer : Nat) (luck : Luck)
  | setDefaultSort (sort : Sorting)
  | unsubscribe (peer dir : Nat)
  | dropPeer (peer : Nat)
  | onChange (raw : DirPath) (dirty : Dirty) (disk : Disk) (luck : Luck)
  | recheck (raw : DirPath) (disk : Disk) (luck : Luck)
  | begin (task : Nat) (opens : Bool)
  | readBatch (task : Nat) (stat : Name → Option Stat)
  | publishBatch (task : Nat) (luck : Luck)
  | evict (victims : DirPath → Bool)
  | setLimits (victims : DirPath → Bool)
  | deliver (peer : Nat)

def World.start : World where
  slots := fun _ => none
  pinned := fun _ => false
  nextDir := 1
  subs := []
  defaultSort := {}
  folders := fun _ => none
  tasks := fun _ => none
  spawned := 0
  queues := fun _ => []
  views := fun _ => .new [47]
  clock := 0
  readAt := fun _ _ => 0
  published := []
  overwrites := []

section

variable (fits : Reply → Bool) (lower : Name → String)

def World.act (w : World) : Input → World
  | .connect peer browser =>
    { w with
      queues := Function.update w.queues peer []
      views := Function.update w.views peer browser.reconnected }
  | .navigate peer path =>
    { w with views := Function.update w.views peer ((w.views peer).navigate path) }
  | .openDir raw direct disk luck => w.openDir fits lower raw direct disk luck
  | .setSort raw dir sort peer luck => w.setSort fits lower raw dir sort peer luck
  | .setDefaultSort sort => { w with defaultSort := sort }
  | .unsubscribe peer dir => w.unsubscribe peer dir
  | .dropPeer peer => w.dropPeer peer
  | .onChange raw dirty disk luck => w.onChange fits lower raw dirty disk luck
  | .recheck raw disk luck => w.recheck fits lower raw disk luck
  | .begin task opens => w.begin task opens
  | .readBatch task stat => w.readBatch task stat
  | .publishBatch task luck => w.publishBatch fits lower task luck
  | .evict victims => w.evict victims
  | .setLimits victims =>
    { w with slots := fun raw => if victims raw then none else w.slots raw }
  | .deliver peer => w.deliver peer

def World.step (w : World) (input : Input) : World :=
  let after := w.act fits lower input
  { after with clock := w.clock + 1 }

end

end EclipseOS.Fog.Views
