import EclipseOS.Foundation.History
import EclipseOS.Fog.Views

/-! # Generations in step

Whatever the order of the requests, the watcher's events and the metadata batches, a number
of a listing stands for one content, and a client holds what was published under the number
it holds. -/

namespace EclipseOS.Fog.Views

open Foundation (Version Along)
open Foundation.Version (Numbered Next latest Told)

/-- What a diff and its order make of a generation. -/
def Content.apply (content : Content) (change : Diff × List Nat) : Content :=
  ⟨applyDiff content.entries change.1, change.2⟩

/-- What a reply says of a listing's generations. -/
def Reply.told : Reply → Option (Told Nat Content (Diff × List Nat))
  | .dirSnapshot _ dir generation entries order _ =>
    some (.whole ⟨dir, generation, ⟨entries, order⟩⟩)
  | .dirDiff dir (generation + 1) change order _ =>
    some (.change dir generation (change, order))
  | _ => none

def Reply.Of (log : List (Version Nat Content)) (reply : Reply) : Prop :=
  ∀ told ∈ reply.told, told.Of Content.apply log

/-- What a client shows is a generation published. -/
def Browser.Holds (log : List (Version Nat Content)) (browser : Browser) : Prop :=
  ∀ dir ∈ browser.dir,
    ⟨dir, browser.generation, ⟨browser.entries, browser.order⟩⟩ ∈ log

variable {log more : List (Version Nat Content)} {reply : Reply} {browser : Browser}

theorem Reply.Of.mono (of : reply.Of log) (grown : log ⊆ more) : reply.Of more :=
  fun told member => (of told member).mono grown

theorem Browser.Holds.mono (holds : browser.Holds log) (grown : log ⊆ more) :
    browser.Holds more :=
  fun dir member => grown (holds dir member)

theorem Reply.of_snapshot {raw : DirPath} {l : Listing} {complete : Bool}
    (published : l.version ∈ log) : (World.snapshot raw l complete).Of log := by
  intro told member
  cases member
  exact published

theorem Reply.of_dirDiff {dir generation : Nat} {change : Diff} {order : List Nat}
    {complete : Bool} {before : Content}
    (earlier : ⟨dir, generation, before⟩ ∈ log)
    (later : ⟨dir, generation + 1, before.apply (change, order)⟩ ∈ log) :
    (Reply.dirDiff dir (generation + 1) change order complete).Of log := by
  intro told member
  cases member
  exact ⟨before, earlier, later⟩

theorem Reply.of_error {raw : DirPath} {errno : Int} : (Reply.error raw errno).Of log := by
  intro told member
  cases member

theorem Reply.of_sorted {dir : Nat} {sort : Sorting} : (Reply.sorted dir sort).Of log := by
  intro told member
  cases member

theorem Reply.of_fallback : (World.fallback reply).Of log := by
  cases reply <;> exact Reply.of_error

theorem Browser.Holds.same {other : Browser} (holds : browser.Holds log)
    (dir : other.dir = browser.dir) (generation : other.generation = browser.generation)
    (entries : other.entries = browser.entries) (order : other.order = browser.order) :
    other.Holds log := by
  rw [Browser.Holds, dir, generation, entries, order]
  exact holds

theorem Browser.Holds.onError {path : DirPath} {errno : Int} (holds : browser.Holds log) :
    (browser.onError path errno).1.Holds log := by
  simp only [Browser.onError]
  split_ifs
  all_goals try split
  all_goals exact holds.same rfl rfl rfl rfl

theorem Browser.Holds.onReply (numbered : Numbered log) (holds : browser.Holds log)
    (of : reply.Of log) : (browser.onReply reply).1.Holds log := by
  cases reply with
  | dirSnapshot path dir generation entries order complete =>
    have whole : ⟨dir, generation, ⟨entries, order⟩⟩ ∈ log := of _ rfl
    have taken : ∀ other ∈ some dir, ⟨other, generation, ⟨entries, order⟩⟩ ∈ log := by
      intro other member
      cases member
      exact whole
    simp only [Browser.onReply]
    split_ifs
    · exact taken
    · exact holds
    · exact holds
    · exact taken
  | dirDiff dir generation change order complete =>
    simp only [Browser.onReply]
    split_ifs with other gap
    · exact holds
    · exact holds
    · exact holds
    · have same : browser.dir = some dir := Decidable.not_not.mp other
      have next : generation = browser.generation + 1 := Decidable.not_not.mp gap
      subst next
      intro known member
      have : known = dir := Option.some.inj (member.symm.trans same)
      subst this
      have next := numbered.onto (holds known same) (of _ rfl)
      exact next
  | sorted dir sort =>
    simp only [Browser.onReply]
    split_ifs
    · exact holds.same rfl rfl rfl rfl
    · exact holds
  | error path errno => exact holds.onError

namespace World

variable {fits : Reply → Bool} {lower : Name → String} {w : World}

/-! ## What the steps are made of -/

theorem update_none {slots : DirPath → Option Listing} {raw other : DirPath} {l : Listing}
    (held : Function.update slots raw none other = some l) : slots other = some l := by
  rcases eq_or_ne other raw with rfl | different
  · simp at held
  · rwa [Function.update_of_ne different] at held

@[simp] theorem note_fields (version : Version Nat Content) :
    (w.note version).slots = w.slots ∧ (w.note version).nextDir = w.nextDir ∧
      (w.note version).tasks = w.tasks ∧ (w.note version).spawned = w.spawned ∧
      (w.note version).clock = w.clock ∧ (w.note version).readAt = w.readAt ∧
      (w.note version).published = version :: w.published ∧
      (w.note version).overwrites = w.overwrites :=
  ⟨rfl, rfl, rfl, rfl, rfl, rfl, rfl, rfl⟩

@[simp] theorem send_fields (peer : Nat) (reply : Reply) :
    (w.send fits peer reply).slots = w.slots ∧
      (w.send fits peer reply).nextDir = w.nextDir ∧
      (w.send fits peer reply).tasks = w.tasks ∧
      (w.send fits peer reply).spawned = w.spawned ∧
      (w.send fits peer reply).views = w.views ∧
      (w.send fits peer reply).clock = w.clock ∧
      (w.send fits peer reply).readAt = w.readAt ∧
      (w.send fits peer reply).published = w.published ∧
      (w.send fits peer reply).overwrites = w.overwrites := by
  unfold send push
  split_ifs <;> simp

@[simp] theorem broadcast_fields (raw : DirPath) (reply : Reply) (skip : Option Nat)
    (luck : Luck) :
    (w.broadcast fits raw reply skip luck).slots = w.slots ∧
      (w.broadcast fits raw reply skip luck).nextDir = w.nextDir ∧
      (w.broadcast fits raw reply skip luck).tasks = w.tasks ∧
      (w.broadcast fits raw reply skip luck).spawned = w.spawned ∧
      (w.broadcast fits raw reply skip luck).views = w.views ∧
      (w.broadcast fits raw reply skip luck).clock = w.clock ∧
      (w.broadcast fits raw reply skip luck).readAt = w.readAt ∧
      (w.broadcast fits raw reply skip luck).published = w.published ∧
      (w.broadcast fits raw reply skip luck).overwrites = w.overwrites := by
  simp [broadcast]

/-- What is published, cached, under way and shown fits together. -/
structure InStep (w : World) : Prop where
  numbered : Numbered w.published
  cached : ∀ raw l, w.slots raw = some l → latest w.published l.dir = some l.version
  fresh : ∀ version ∈ w.published, version.key < w.nextDir
  apart : ∀ raw other l m, w.slots raw = some l → w.slots other = some m →
    l.dir = m.dir → raw = other
  queued : ∀ peer, ∀ reply ∈ w.queues peer, reply.Of w.published
  viewed : ∀ peer, (w.views peer).Holds w.published

namespace InStep

variable {raw : DirPath} {l cur : Listing} {luck : Luck} {peer : Nat}

theorem published (inStep : w.InStep) (slot : w.slots raw = some l) :
    l.version ∈ w.published :=
  (Version.latest_mem (inStep.cached raw l slot)).1

theorem dir_lt (inStep : w.InStep) (slot : w.slots raw = some l) : l.dir < w.nextDir :=
  inStep.fresh _ (inStep.published slot)

theorem fewer {w' : World} (inStep : w.InStep)
    (slots : ∀ raw l, w'.slots raw = some l → w.slots raw = some l)
    (nextDir : w'.nextDir = w.nextDir) (queues : w'.queues = w.queues)
    (views : w'.views = w.views) (log : w'.published = w.published) : w'.InStep where
  numbered := log ▸ inStep.numbered
  cached raw l slot := log ▸ inStep.cached raw l (slots raw l slot)
  fresh := by
    rw [log, nextDir]
    exact inStep.fresh
  apart raw other l m first second :=
    inStep.apart raw other l m (slots raw l first) (slots other m second)
  queued := by
    rw [queues, log]
    exact inStep.queued
  viewed := by
    rw [views, log]
    exact inStep.viewed

theorem push (inStep : w.InStep) (of : reply.Of w.published) :
    (w.push peer reply).InStep := by
  refine { inStep with queued := fun other r member => ?_ }
  rcases eq_or_ne other peer with rfl | different
  · simp only [World.push, Function.update_self, List.mem_append, List.mem_singleton] at member
    rcases member with old | rfl
    · exact inStep.queued _ _ old
    · exact of
  · simp only [World.push, Function.update_of_ne different] at member
    exact inStep.queued other r member

theorem send (inStep : w.InStep) (of : reply.Of w.published) :
    (w.send fits peer reply).InStep := by
  unfold World.send
  split_ifs
  · exact inStep.push of
  · exact inStep.push Reply.of_fallback
  · exact inStep

theorem broadcast {skip : Option Nat} (inStep : w.InStep) (of : reply.Of w.published) :
    (w.broadcast fits raw reply skip luck).InStep := by
  refine { inStep with queued := fun other r member => ?_ }
  dsimp only [World.broadcast] at member
  split_ifs at member
  · rcases List.mem_append.mp member with old | new
    · exact inStep.queued _ _ old
    · exact List.mem_singleton.mp new ▸ of
  · exact inStep.queued other r member

theorem evict {victims : DirPath → Bool} (inStep : w.InStep) : (w.evict victims).InStep := by
  refine inStep.fewer (fun raw l slot => ?_) rfl rfl rfl rfl
  dsimp only [World.evict] at slot
  split_ifs at slot
  exact slot

theorem note {version : Version Nat Content} (inStep : w.InStep)
    (next : Next version (latest w.published version.key)) (known : version.key < w.nextDir)
    (cached : ∀ raw l, w.slots raw = some l → l.dir = version.key → l.version = version) :
    (w.note version).InStep where
  numbered := .cons inStep.numbered next
  cached raw l slot := by
    by_cases same : version.key = l.dir
    · rw [World.note, ← same, Version.latest_cons_self, cached raw l slot same.symm]
    · exact (Version.latest_cons_of_ne same).trans (inStep.cached raw l slot)
  fresh other member := by
    rcases List.mem_cons.mp member with rfl | old
    · exact known
    · exact inStep.fresh other old
  apart := inStep.apart
  queued peer r member := (inStep.queued peer r member).mono (List.subset_cons_self _ _)
  viewed peer := (inStep.viewed peer).mono (List.subset_cons_self _ _)

theorem again (inStep : w.InStep) (slot : w.slots raw = some l) :
    (w.note l.version).InStep := by
  have last : latest w.published l.version.key = some l.version := inStep.cached raw l slot
  apply inStep.note
  · rw [last]
    exact .inl rfl
  · exact inStep.dir_lt slot
  · intro other m otherSlot same
    have latest := inStep.cached other m otherSlot
    rw [same, last] at latest
    exact (Option.some.inj latest).symm

theorem first {content : Content} (inStep : w.InStep) :
    (World.note { w with nextDir := w.nextDir + 1 } ⟨w.nextDir, 0, content⟩).InStep := by
  have unknown : latest w.published w.nextDir = none := by
    apply List.find?_eq_none.mpr
    intro version member
    simpa using (inStep.fresh version member).ne
  have grown : World.InStep { w with nextDir := w.nextDir + 1 } :=
    { inStep with fresh := fun version member => Nat.lt_succ_of_lt (inStep.fresh version member) }
  apply grown.note
  · rw [show latest w.published w.nextDir = none from unknown]
    rfl
  · exact Nat.lt_succ_self _
  · intro raw l slot same
    exact absurd same (inStep.dir_lt slot).ne

theorem store (inStep : w.InStep) (last : latest w.published l.dir = some l.version)
    (alone : ∀ other m, w.slots other = some m → m.dir = l.dir → other = raw) :
    (w.store raw l luck).InStep := by
  apply evict
  have cases : ∀ other m, Function.update w.slots raw (some l) other = some m →
      (other = raw ∧ m = l) ∨ (other ≠ raw ∧ w.slots other = some m) := by
    intro other m slot
    rcases eq_or_ne other raw with rfl | different
    · rw [Function.update_self] at slot
      exact .inl ⟨rfl, (Option.some.inj slot).symm⟩
    · rw [Function.update_of_ne different] at slot
      exact .inr ⟨different, slot⟩
  refine { inStep with cached := fun other m slot => ?_, apart := ?_ }
  · rcases cases other m slot with ⟨-, rfl⟩ | ⟨-, old⟩
    · exact last
    · exact inStep.cached other m old
  · intro first second l' m' firstSlot secondSlot same
    rcases cases first l' firstSlot with ⟨rfl, rfl⟩ | ⟨-, oldFirst⟩ <;>
      rcases cases second m' secondSlot with ⟨rfl, rfl⟩ | ⟨-, oldSecond⟩
    · rfl
    · exact (alone second m' oldSecond same.symm).symm
    · exact alone first l' oldFirst same
    · exact inStep.apart first second l' m' oldFirst oldSecond same

theorem advance (inStep : w.InStep) (slot : w.slots raw = some cur) (dir : l.dir = cur.dir)
    (generation : l.generation = cur.generation + 1) :
    ((w.store raw l luck).note l.version).InStep := by
  -- Without the old generation in the cache, the new one is published and cached.
  have emptied : World.InStep { w with slots := Function.update w.slots raw none } :=
    inStep.fewer (fun _ _ held => update_none held) rfl rfl rfl rfl
  have gone : ∀ other m, Function.update w.slots raw none other = some m → m.dir ≠ l.dir := by
    intro other m held same
    rcases eq_or_ne other raw with rfl | different
    · simp at held
    · rw [Function.update_of_ne different] at held
      exact different (inStep.apart other raw m cur held slot (same.trans dir))
  have noted :
      (World.note { w with slots := Function.update w.slots raw none } l.version).InStep := by
    apply emptied.note
    · rw [show latest w.published l.version.key = some cur.version from
        (congrArg _ dir).trans (inStep.cached raw cur slot)]
      exact .inr generation
    · rw [show l.version.key = cur.dir from dir]
      exact inStep.dir_lt slot
    · intro other m held same
      exact absurd same (gone other m held)
  have stored := @store _ raw _ luck noted Version.latest_cons_self
      (fun other m held same => absurd same (gone other m held))
  have eq : (World.note { w with slots := Function.update w.slots raw none } l.version).store raw l
      luck = (w.store raw l luck).note l.version := by
    simp [World.store, World.note, World.evict]
  rwa [eq] at stored

theorem fail {errno : Int} {direct : Option Direct} (inStep : w.InStep) :
    (w.fail fits raw errno direct luck).InStep := by
  have gone : World.InStep
      { w with
        slots := Function.update w.slots raw none
        pinned := Function.update w.pinned raw false } :=
    inStep.fewer (fun _ _ held => update_none held) rfl rfl rfl rfl
  have told := @broadcast (.error raw errno) fits _ raw luck (direct.bind Direct.skip) gone
      Reply.of_error
  cases direct with
  | none => exact { told with }
  | some direct => exact World.InStep.send { told with } Reply.of_error

theorem publish {change : Diff} {resort : Bool} {mtimeNs : Option Int}
    {direct : Option Direct} (inStep : w.InStep) (slot : w.slots raw = some cur) :
    (w.publish fits lower raw cur change resort mtimeNs direct luck).1.InStep := by
  unfold World.publish
  split_ifs with unchanged moved
  · apply inStep.store
    · exact inStep.cached raw cur slot
    · exact fun other m held same => inStep.apart other raw m cur held slot same
  · exact inStep
  · have earlier := inStep.published slot
    extract_lets entries sort keyed order generation listing reply stored told
    have advanced : stored.InStep := inStep.advance slot rfl rfl
    have of : reply.Of stored.published := by
      apply @Reply.of_dirDiff _ _ _ _ _ _ ⟨cur.entries, cur.order⟩
      · exact List.mem_cons_of_mem _ earlier
      · exact List.mem_cons_self
    have inStep : told.InStep := advanced.broadcast of
    cases direct with
    | none => exact inStep
    | some direct => exact inStep.send (by simpa [told] using of)

theorem refresh {dirty : Dirty} {disk : Disk} {direct : Option Direct} (inStep : w.InStep)
    (slot : w.slots raw = some cur) :
    (w.refresh fits lower raw cur dirty disk direct luck).1.InStep := by
  unfold World.refresh
  cases rescan cur dirty disk with
  | error errno => exact inStep.fail
  | ok scan =>
    have read : (w.noteRead cur.dir (reread cur dirty disk scan.1) w.clock).InStep :=
      { inStep with }
    exact read.publish slot

theorem cold {disk : Disk} (inStep : w.InStep) :
    (w.cold fits lower raw peer disk luck).1.InStep := by
  have numbered : World.InStep { w with nextDir := w.nextDir + 1 } :=
    { inStep with
      fresh := fun version member => Nat.lt_succ_of_lt (inStep.fresh version member) }
  -- No listing in the cache has the new number.
  have unused : ∀ other m, w.slots other = some m → m.dir = w.nextDir → False :=
    fun other m slot same => (inStep.dir_lt slot).ne same
  unfold World.cold
  extract_lets dir fresh sort
  split
  · exact numbered.send Reply.of_error
  · extract_lets listing told
    have first : (fresh.note listing.version).InStep := inStep.first
    have sent : told.InStep := by
      refine InStep.send (InStep.send first ?_) Reply.of_sorted
      exact Reply.of_snapshot List.mem_cons_self
    have log : told.published = listing.version :: w.published := by simp [told, fresh]
    have slots : told.slots = w.slots := by simp [told, fresh]
    apply sent.store
    · rw [log]
      exact Version.latest_cons_self
    · intro other m slot same
      exact (unused other m (slots ▸ slot) same).elim
  · extract_lets part told
    have first : (fresh.note part.version).InStep := inStep.first
    have sent : told.InStep := by
      refine InStep.send (InStep.send first ?_) Reply.of_sorted
      exact Reply.of_snapshot List.mem_cons_self
    have log : told.published = part.version :: w.published := by
      simp [told, fresh]
    have slots : told.slots = w.slots := by simp [told, fresh]
    split
    · exact sent.send Reply.of_error
    · extract_lets added entries order listing all
      have noted : (told.note listing.version).InStep := by
        apply sent.note
        · rw [log, show listing.version.key = part.version.key from rfl,
            Version.latest_cons_self]
          exact .inr rfl
        · simp [told, fresh, listing, Listing.version, dir]
        · intro other m slot same
          exact (unused other m (slots ▸ slot) same).elim
      have of : (Reply.dirDiff dir 1 ⟨[], added, []⟩ order true).Of
          (listing.version :: told.published) := by
        apply @Reply.of_dirDiff _ _ _ _ _ _ ⟨part.entries, part.order⟩
        · rw [log]
          exact List.mem_cons_of_mem _ List.mem_cons_self
        · have made : Content.apply ⟨part.entries, part.order⟩ (⟨[], added, []⟩, order) =
              ⟨entries, order⟩ := by
            simp [Content.apply, applyDiff, byName, part, entries]
          rw [made]
          exact List.mem_cons_self
      have sent : all.InStep := noted.send of
      apply sent.store
      · simp only [all, send_fields, note_fields]
        exact Version.latest_cons_self
      · intro other m slot same
        simp only [all, send_fields, note_fields, slots] at slot
        exact (unused other m slot same).elim

theorem list {direct : Direct} {disk : Disk} (inStep : w.InStep) :
    (w.list fits lower raw direct disk luck).1.InStep := by
  unfold World.list
  split
  case h_2 => exact inStep.cold
  case h_1 old slot =>
    extract_lets told
    have sent : told.InStep := by
      refine InStep.send (InStep.send (inStep.again slot) ?_) Reply.of_sorted
      exact Reply.of_snapshot List.mem_cons_self
    have toldSlot : told.slots raw = some old := by simpa [told] using slot
    split
    · dsimp only
      exact sent.fail
    · split_ifs
      · exact sent.refresh toldSlot
      · exact sent.evict

theorem openDir {direct : Direct} {disk : Disk} (inStep : w.InStep) :
    (w.openDir fits lower raw direct disk luck).InStep := by
  unfold World.openDir
  split_ifs
  · have listed := @list fits lower _ raw luck direct disk inStep
    split
    · next eq => rwa [eq] at listed
    · next w' eq =>
      rw [eq] at listed
      extract_lets joined
      have same : joined.InStep := by
        unfold joined
        split
        · exact { (show w'.InStep from listed) with }
        · exact listed
      exact { same with }
  · exact inStep.send Reply.of_error

theorem reorder {order : List Nat} (inStep : w.InStep) (slot : w.slots raw = some cur) :
    (w.reorder fits raw cur order peer luck).InStep := by
  unfold World.reorder
  extract_lets generation listing reply
  have advanced : ((w.store raw listing luck).note listing.version).InStep :=
    inStep.advance slot rfl rfl
  have made : Content.apply ⟨cur.entries, cur.order⟩ (⟨[], [], []⟩, order) =
      ⟨cur.entries, order⟩ := by
    simp [Content.apply, applyDiff, byName]
  have of : reply.Of ((w.store raw listing luck).note listing.version).published := by
    apply @Reply.of_dirDiff _ _ _ _ _ _ ⟨cur.entries, cur.order⟩
    · exact List.mem_cons_of_mem _ (inStep.published slot)
    · rw [made]
      exact List.mem_cons_self
  exact (advanced.broadcast of).send (by simpa using of)

theorem setSort {raw : Option DirPath} {dir : Nat} {sort : Sorting} (inStep : w.InStep) :
    (w.setSort fits lower raw dir sort peer luck).InStep := by
  unfold World.setSort
  split
  case h_2 => exact inStep.send Reply.of_error
  case h_1 raw cur slot =>
    split_ifs with same
    · extract_lets kept order ordered
      have keptInStep : kept.InStep := { inStep with }
      have result : ordered.InStep := by
        unfold ordered
        split_ifs
        · exact keptInStep.reorder slot
        · exact keptInStep
      exact (result.broadcast Reply.of_sorted).send Reply.of_sorted
    · exact inStep.send Reply.of_error

theorem publishBatch {i : Nat} (inStep : w.InStep) :
    (w.publishBatch fits lower i luck).InStep := by
  unfold World.publishBatch
  split
  · next task isTask =>
    split
    · exact { inStep with }
    · next of seen left size filled resort time cur stage slot =>
      have noted : (w.noteBatch cur of time (kept cur seen filled)).InStep := { inStep with }
      have result := @publish fits lower _ _ _ luck ⟨[], [], kept cur seen filled⟩ resort
          cur.mtimeNs (some task.direct) noted slot
      exact { result with }
    · exact inStep
  · exact inStep

theorem deliver (inStep : w.InStep) : (w.deliver peer).InStep := by
  unfold World.deliver
  split
  · next reply rest queue =>
    have of : reply.Of w.published := inStep.queued peer reply (queue ▸ List.mem_cons_self)
    refine { inStep with queued := fun other r member => ?_, viewed := fun other => ?_ }
    · rcases eq_or_ne other peer with rfl | different
      · simp only [Function.update_self] at member
        exact inStep.queued other r (queue ▸ List.mem_cons_of_mem _ member)
      · simp only [Function.update_of_ne different] at member
        exact inStep.queued other r member
    · rcases eq_or_ne other peer with rfl | different
      · simp only [Function.update_self]
        exact (inStep.viewed other).onReply inStep.numbered of
      · simp only [Function.update_of_ne different]
        exact inStep.viewed other
  · exact inStep

theorem step {input : Input} (inStep : w.InStep) : (w.step fits lower input).InStep := by
  suffices kept : (w.act fits lower input).InStep from { kept with }
  cases input with
  | connect peer browser =>
    refine { inStep with queued := fun other r member => ?_, viewed := fun other => ?_ }
    · rcases eq_or_ne other peer with rfl | different
      · simp [World.act] at member
      · simp only [World.act, Function.update_of_ne different] at member
        exact inStep.queued other r member
    · rcases eq_or_ne other peer with rfl | different
      · intro dir member
        simp [World.act, Browser.reconnected] at member
      · simp only [World.act, Function.update_of_ne different]
        exact inStep.viewed other
  | navigate peer path =>
    refine { inStep with viewed := fun other => ?_ }
    rcases eq_or_ne other peer with rfl | different
    · simp only [World.act, Function.update_self]
      exact (inStep.viewed other).same rfl rfl rfl rfl
    · simp only [World.act, Function.update_of_ne different]
      exact inStep.viewed other
  | openDir raw direct disk luck => exact inStep.openDir
  | setSort raw dir sort peer luck => exact inStep.setSort
  | setDefaultSort sort => exact { inStep with }
  | unsubscribe peer dir =>
    simp only [World.act, World.unsubscribe]
    split
    · exact { inStep with }
    · exact inStep
  | dropPeer peer => exact { inStep with }
  | onChange raw dirty disk luck =>
    simp only [World.act, World.onChange]
    split
    · next cur slot =>
      split_ifs
      · exact inStep.refresh slot
      · exact inStep
    · exact inStep
  | recheck raw disk luck =>
    simp only [World.act, World.recheck]
    split
    · next cur slot =>
      split_ifs
      · split
        · exact inStep.fail
        · split_ifs
          · exact inStep
          · exact inStep.refresh slot
      · exact inStep
    · exact inStep
  | begin task opens =>
    simp only [World.act, World.begin]
    split
    · split <;> exact { inStep with }
    · exact inStep
  | readBatch task stat =>
    simp only [World.act, World.readBatch]
    split
    · split <;> exact { inStep with }
    · exact inStep
  | publishBatch task luck => exact inStep.publishBatch
  | evict victims => exact inStep.evict
  | setLimits victims =>
    refine inStep.fewer (fun raw l slot => ?_) rfl rfl rfl rfl
    simp only [World.act] at slot
    split_ifs at slot
    exact slot
  | deliver peer => exact inStep.deliver

end InStep

end World

end EclipseOS.Fog.Views
