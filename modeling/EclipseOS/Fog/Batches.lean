import EclipseOS.Fog.ViewRuns

/-! # Metadata batches

A batch is read without the directory's lock and published under it. What it replaces is
what the listing held when the batch was read, or nothing, as long as the listing is the
one the batch was read for. -/

namespace EclipseOS.Fog.Views

open Foundation (Version Along)

/-- A batch that was read and waits to be published. -/
structure Batch where
  raw : DirPath
  of : Nat
  seen : Nat
  filled : List Entry
  time : Nat

namespace World

def batch (w : World) (i : Nat) : Option Batch :=
  match w.tasks i with
  | some ⟨raw, _, .read of seen _ _ filled _ time⟩ => some ⟨raw, of, seen, filled, time⟩
  | _ => none

/-- The batch would replace entries of another listing than the one it was read for. -/
def strays (w : World) (b : Batch) : Bool :=
  match w.slots b.raw with
  | some cur =>
    cur.dir ≠ b.of ∧
      (kept cur b.seen b.filled).any fun filled => (byName cur.entries filled.name).isSome
  | none => false

/-- What an input brings up to date with the disk. -/
def refreshed (w : World) : Input → Option (DirPath × Listing × Dirty × Disk)
  | .openDir raw _ disk _ | .recheck raw disk _ =>
    match w.slots raw, disk.mtime with
    | some cur, .ok mtime =>
      if isAbsolute raw ∧ some mtime ≠ cur.mtimeNs then some (raw, cur, .rescanned, disk)
      else none
    | _, _ => none
  | .onChange raw dirty disk _ =>
    match w.slots raw with
    | some cur => if isAbsolute raw then some (raw, cur, dirty, disk) else none
    | none => none
  | _ => none

/-- Bringing `cur` up to date reads a name again, and finds nothing in it to be different. -/
def Again (cur : Listing) (dirty : Dirty) (disk : Disk) (dir : Nat) (name : Name) : Prop :=
  match rescan cur dirty disk with
  | .ok (entries, _) =>
    cur.dir = dir ∧ (found cur dirty disk entries).isEmpty ∧
      name ∈ reread cur dirty disk entries
  | .error _ => False

instance {cur : Listing} {dirty : Dirty} {disk : Disk} {dir : Nat} {name : Name} :
    Decidable (Again cur dirty disk dir name) := by
  unfold Again
  split <;> infer_instance

/-- The input reads a name again, and nothing in the listing is different. -/
def Confirms (w : World) (input : Input) (dir : Nat) (name : Name) : Prop :=
  match w.refreshed input with
  | some (_, cur, dirty, disk) => Again cur dirty disk dir name
  | none => False

instance (w : World) (input : Input) (dir : Nat) (name : Name) :
    Decidable (w.Confirms input dir name) := by
  unfold Confirms
  split <;> infer_instance

/-- The batch was read for what is cached, and nothing was published since. -/
def current (w : World) (b : Batch) : Bool :=
  (w.slots b.raw).any fun cur => cur.dir = b.of ∧ cur.generation = b.seen

/-- The listing a batch was read for is still the one it is published onto, and no refresh
finds an entry as it was while a batch that read it before waits. -/
def Orderly (w : World) : Input → Prop
  | .publishBatch i _ => ∀ b ∈ w.batch i, ¬w.strays b
  | input => ∀ i < w.spawned, ∀ b ∈ w.batch i, w.current b →
      ∀ filled ∈ b.filled, ¬w.Confirms input b.of filled.name

instance (w : World) (input : Input) : Decidable (w.Orderly input) := by
  unfold Orderly
  split <;> infer_instance

/-! ## What a step leaves of the listings and the batches -/

variable {fits : Reply → Bool} {lower : Name → String} {w w' : World}

/-- The part of the service that batches depend on. -/
def core (w : World) :=
  (w.slots, w.nextDir, w.tasks, w.spawned, w.clock, w.readAt, w.overwrites)

@[simp] theorem core_send {peer : Nat} {reply : Reply} :
    (w.send fits peer reply).core = w.core := by
  simp [core]

@[simp] theorem core_broadcast {raw : DirPath} {reply : Reply} {skip : Option Nat}
    {luck : Luck} : (w.broadcast fits raw reply skip luck).core = w.core :=
  rfl

@[simp] theorem core_note {version : Version Nat Content} :
    (w.note version).core = w.core :=
  rfl

/-- Listings go, come anew or go on; metadata is read again, without anything published, of
`again` alone; and no batch is read or published. -/
structure Onward (again : Nat → Name → Prop) (w w' : World) : Prop where
  nextDir : w.nextDir ≤ w'.nextDir
  slots : ∀ raw l', w'.slots raw = some l' → w.nextDir ≤ l'.dir ∨
    ∃ l, w.slots raw = some l ∧ l'.dir = l.dir ∧
      (l.generation < l'.generation ∨ l'.generation = l.generation ∧
        ∀ name, ¬again l.dir name → w'.readAt l.dir name = w.readAt l.dir name)
  tasks : ∀ i task, w'.tasks i = some task →
    w.tasks i = some task ∨ task.stage = .opened ∧ i < w'.spawned
  spawned : w.spawned ≤ w'.spawned
  clock : w'.clock = w.clock
  read : (∀ d name, w.readAt d name ≤ w.clock) → ∀ d name, w'.readAt d name ≤ w.clock
  overwrites : w'.overwrites = w.overwrites

namespace Onward

variable {again : Nat → Name → Prop} {raw : DirPath} {cur : Listing} {luck : Luck}
  {direct : Option Direct}

theorem congr {v v' : World} (onward : Onward again w w') (before : w.core = v.core)
    (after : w'.core = v'.core) : Onward again v v' := by
  rcases w
  rcases w'
  rcases v
  rcases v'
  simp only [core, Prod.mk.injEq] at before after
  rcases before with ⟨rfl, rfl, rfl, rfl, rfl, rfl, rfl⟩
  rcases after with ⟨rfl, rfl, rfl, rfl, rfl, rfl, rfl⟩
  exact { onward with }

theorem fewer (slots : ∀ raw l, w'.slots raw = some l → w.slots raw = some l)
    (nextDir : w.nextDir ≤ w'.nextDir)
    (tasks : ∀ i task, w'.tasks i = some task →
      w.tasks i = some task ∨ task.stage = .opened ∧ i < w'.spawned)
    (spawned : w.spawned ≤ w'.spawned) (clock : w'.clock = w.clock)
    (readAt : w'.readAt = w.readAt) (overwrites : w'.overwrites = w.overwrites) :
    Onward again w w' where
  nextDir := nextDir
  slots raw l slot := .inr ⟨l, slots raw l slot, rfl, .inr ⟨rfl, fun _ _ => by rw [readAt]⟩⟩
  tasks := tasks
  spawned := spawned
  clock := clock
  read before := by rwa [readAt]
  overwrites := overwrites

theorem refl : Onward again w w :=
  fewer (fun _ _ slot => slot) (Nat.le_refl _) (fun _ _ task => .inl task) (Nat.le_refl _) rfl rfl
    rfl

theorem fail {errno : Int} : Onward again w (w.fail fits raw errno direct luck) := by
  have gone : Onward again w
      { w with
        slots := Function.update w.slots raw none
        pinned := Function.update w.pinned raw false } :=
    fewer (fun _ _ held => update_none held) (Nat.le_refl _) (fun _ _ task => .inl task)
      (Nat.le_refl _) rfl rfl rfl
  apply gone.congr rfl
  unfold World.fail
  cases direct <;> simp [core]

theorem store {l : Listing} (slot : w.slots raw = some cur) (dir : l.dir = cur.dir)
    (generation : cur.generation ≤ l.generation) :
    Onward again w (w.store raw l luck) where
  nextDir := Nat.le_refl _
  slots other l' held := by
    simp only [World.store, World.evict] at held
    split_ifs at held
    rcases eq_or_ne other raw with rfl | different
    · rw [Function.update_self] at held
      cases held
      refine .inr ⟨cur, slot, dir, ?_⟩
      rcases Nat.eq_or_lt_of_le generation with same | later
      · exact .inr ⟨same.symm, fun _ _ => rfl⟩
      · exact .inl later
    · rw [Function.update_of_ne different] at held
      exact .inr ⟨l', held, rfl, .inr ⟨rfl, fun _ _ => rfl⟩⟩
  tasks _ _ task := .inl task
  spawned := Nat.le_refl _
  clock := rfl
  read before := before
  overwrites := rfl

theorem publish {change : Diff} {resort : Bool} {mtimeNs : Option Int}
    (slot : w.slots raw = some cur) :
    Onward again w (w.publish fits lower raw cur change resort mtimeNs direct luck).1 := by
  unfold World.publish
  split_ifs with unchanged moved
  · exact store slot rfl (Nat.le_refl _)
  · exact refl
  · extract_lets entries sort keyed order generation listing reply stored told
    have next : Onward again w (w.store raw listing luck) := store slot rfl (Nat.le_succ _)
    cases direct with
    | none => exact next.congr rfl rfl
    | some direct => exact next.congr rfl (by simp [told, stored])

end Onward

theorem publish_later {raw : DirPath} {cur : Listing} {change : Diff} {resort : Bool}
    {mtimeNs : Option Int} {direct : Option Direct} {luck : Luck} {l : Listing}
    (changed : change.isEmpty = false)
    (slot : (w.publish fits lower raw cur change resort mtimeNs direct luck).1.slots raw =
      some l) : cur.generation < l.generation ∧ l.dir = cur.dir := by
  have stored : ∀ m : Listing, (w.store raw m luck).slots raw = some l → l = m := by
    intro m held
    simp only [World.store, World.evict] at held
    split_ifs at held
    rw [Function.update_self] at held
    exact (Option.some.inj held).symm
  rw [World.publish, if_neg (by simp [changed])] at slot
  have := stored _ (by cases direct <;> simpa using slot)
  rw [this]
  exact ⟨Nat.lt_succ_self _, rfl⟩

namespace Onward

variable {again : Nat → Name → Prop} {raw : DirPath} {cur : Listing} {luck : Luck}
  {direct : Option Direct} {peer : Nat} {dirty : Dirty} {disk : Disk}

theorem refresh (inStep : w.InStep) (slot : w.slots raw = some cur) :
    Onward (Again cur dirty disk) w
      (w.refresh fits lower raw cur dirty disk direct luck).1 := by
  unfold World.refresh
  cases scanned : rescan cur dirty disk with
  | error errno => exact fail
  | ok scan =>
    rcases scan with ⟨entries, mtimeNs⟩
    let names := reread cur dirty disk entries
    let read := w.noteRead cur.dir names w.clock
    let result := read.publish fits lower raw cur (found cur dirty disk entries) false mtimeNs
      direct luck
    have published : Onward (fun _ _ => False) read result.1 := publish slot
    show Onward _ w result.1
    refine { published with slots := fun other l' held => ?_, read := fun before => ?_ }
    · rcases published.slots other l' held with anew | ⟨l, old, dir, later | ⟨same, kept⟩⟩
      · exact .inl anew
      · exact .inr ⟨l, old, dir, .inl later⟩
      · refine .inr ⟨l, old, dir, .inr ⟨same, fun name notAgain => ?_⟩⟩
        rw [kept name id]
        apply if_neg
        rintro ⟨isCur, isRead⟩
        -- The names were read again of what is cached here, and nothing was published.
        have here : other = raw := inStep.apart other raw l cur old slot isCur
        subst here
        have isCached : l = cur := Option.some.inj (old.symm.trans slot)
        subst isCached
        cases unchanged : (found l dirty disk entries).isEmpty with
        | true =>
          apply notAgain
          rw [Again, scanned]
          exact ⟨rfl, unchanged, isRead⟩
        | false =>
          have later := (publish_later unchanged held).1
          omega
    · apply published.read
      intro d name
      show (if d = cur.dir ∧ name ∈ names then w.clock else w.readAt d name) ≤ w.clock
      split_ifs
      · exact Nat.le_refl _
      · exact before d name

theorem cold : Onward again w (w.cold fits lower raw peer disk luck).1 := by
  have numbered : Onward again w { w with nextDir := w.nextDir + 1 } :=
    fewer (fun _ _ slot => slot) (Nat.le_succ _) (fun _ _ task => .inl task) (Nat.le_refl _) rfl
      rfl rfl
  -- A listing with the new number comes.
  have stored : ∀ v : World, v.core = core { w with nextDir := w.nextDir + 1 } →
      ∀ l : Listing, l.dir = w.nextDir → Onward again w (v.store raw l luck) := by
    intro v same l dir
    rcases v
    simp only [core, Prod.mk.injEq] at same
    rcases same with ⟨rfl, rfl, rfl, rfl, rfl, rfl, rfl⟩
    refine { numbered with slots := fun other l' held => ?_ }
    simp only [World.store, World.evict] at held
    split_ifs at held
    rcases eq_or_ne other raw with rfl | different
    · rw [Function.update_self] at held
      cases held
      exact .inl dir.ge
    · rw [Function.update_of_ne different] at held
      exact numbered.slots other l' held
  unfold World.cold
  extract_lets dir fresh sort
  split
  · exact numbered.congr rfl (by simp [fresh, dir])
  · exact stored _ (by simp [fresh, dir]) _ rfl
  · split
    · exact numbered.congr rfl (by simp [fresh, dir])
    · exact stored _ (by simp [fresh, dir]) _ rfl

theorem list {direct : Direct} (inStep : w.InStep) {input : Input}
    (refreshes : ∀ cur mtime, w.slots raw = some cur → disk.mtime = .ok mtime →
      some mtime ≠ cur.mtimeNs → w.refreshed input = some (raw, cur, .rescanned, disk)) :
    Onward (w.Confirms input) w (w.list fits lower raw direct disk luck).1 := by
  unfold World.list
  split
  case h_2 => exact cold
  case h_1 old slot =>
    extract_lets told
    have same : told.core = w.core := by simp [told]
    have toldSlot : told.slots raw = some old := by simpa [told] using slot
    split
    · exact fail.congr same rfl
    · next mtime read =>
      split_ifs with moved
      · have sent : told.InStep := by
          refine InStep.send (InStep.send (inStep.again slot) ?_) Reply.of_sorted
          exact Reply.of_snapshot List.mem_cons_self
        have confirms : w.Confirms input = Again old .rescanned disk := by
          funext dir name
          rw [Confirms, refreshes old mtime slot read moved]
        rw [confirms]
        exact (refresh sent toldSlot).congr same rfl
      · have fewer : Onward (w.Confirms input) told (told.evict luck.victims) := by
          refine fewer (fun other l held => ?_) (Nat.le_refl _) (fun _ _ task => .inl task)
            (Nat.le_refl _) rfl rfl rfl
          simp only [World.evict] at held
          split_ifs at held
          exact held
        exact fewer.congr same rfl

end Onward

theorem Onward.openDir {raw : DirPath} {direct : Direct} {disk : Disk} {luck : Luck}
    (inStep : w.InStep) :
    Onward (w.Confirms (.openDir raw direct disk luck)) w
      (w.openDir fits lower raw direct disk luck) := by
  unfold World.openDir
  split_ifs with absolute
  · have listed := @Onward.list fits lower _ raw luck disk direct inStep
        (.openDir raw direct disk luck) (by
        intro cur mtime slot read moved
        simp [refreshed, slot, read, absolute, moved])
    split
    · next eq => rwa [eq] at listed
    · next v eq =>
      rw [eq] at listed
      extract_lets joined
      have same : joined.core = v.core := by
        unfold joined
        split <;> rfl
      have begun := listed.congr rfl same.symm
      refine { begun with tasks := fun i task isTask => ?_, spawned := ?_ }
      · rcases eq_or_ne i joined.spawned with rfl | different
        · simp only [spawn, Function.update_self] at isTask
          cases isTask
          exact .inr ⟨rfl, Nat.lt_succ_self _⟩
        · simp only [spawn, Function.update_of_ne different] at isTask
          rcases begun.tasks i task isTask with old | ⟨opened, before⟩
          · exact .inl old
          · exact .inr ⟨opened, Nat.lt_succ_of_lt before⟩
      · exact Nat.le_succ_of_le begun.spawned
  · exact Onward.refl.congr rfl (by simp)

theorem Onward.setSort {again : Nat → Name → Prop} {raw : Option DirPath} {dir : Nat}
    {sort : Sorting} {peer : Nat} {luck : Luck} :
    Onward again w (w.setSort fits lower raw dir sort peer luck) := by
  unfold World.setSort
  split
  case h_2 => exact Onward.refl.congr rfl (by simp)
  case h_1 raw cur slot =>
    split_ifs with same
    · extract_lets kept order ordered
      have result : Onward again w ordered := by
        unfold ordered
        split_ifs
        · unfold World.reorder
          extract_lets generation listing reply
          have stored : Onward again kept (kept.store raw listing luck) :=
            Onward.store slot rfl (Nat.le_succ _)
          exact stored.congr rfl (by simp)
        · exact Onward.refl.congr rfl rfl
      exact result.congr rfl (by simp)
    · exact Onward.refl.congr rfl (by simp)

theorem Onward.act {input : Input} (inStep : w.InStep)
    (notBegin : ∀ i opens, input ≠ .begin i opens)
    (notRead : ∀ i stat, input ≠ .readBatch i stat)
    (notPublish : ∀ i luck, input ≠ .publishBatch i luck) :
    Onward (w.Confirms input) w (w.act fits lower input) := by
  have dropped : ∀ (victims : DirPath → Prop) [DecidablePred victims], Onward (w.Confirms input) w
      { w with slots := fun raw => if victims raw then none else w.slots raw } := by
    intro victims _
    refine Onward.fewer (fun raw l held => ?_) (Nat.le_refl _) (fun _ _ task => .inl task)
      (Nat.le_refl _) rfl rfl rfl
    dsimp only at held
    split_ifs at held
    exact held
  cases input with
  | connect peer browser => exact Onward.refl.congr rfl rfl
  | navigate peer path => exact Onward.refl.congr rfl rfl
  | openDir raw direct disk luck => exact Onward.openDir inStep
  | setSort raw dir sort peer luck => exact Onward.setSort
  | setDefaultSort sort => exact Onward.refl.congr rfl rfl
  | unsubscribe peer dir =>
    simp only [World.act, World.unsubscribe]
    split <;> exact Onward.refl.congr rfl rfl
  | dropPeer peer => exact Onward.refl.congr rfl rfl
  | onChange raw dirty disk luck =>
    simp only [World.act, World.onChange]
    split
    · next cur slot =>
      split_ifs with absolute
      · have confirms : w.Confirms (.onChange raw dirty disk luck) = Again cur dirty disk := by
          funext dir name
          simp [Confirms, refreshed, slot, absolute]
        rw [confirms]
        exact Onward.refresh inStep slot
      · exact Onward.refl
    · exact Onward.refl
  | recheck raw disk luck =>
    simp only [World.act, World.recheck]
    split
    · next cur slot =>
      split_ifs with absolute
      · split
        · exact Onward.fail
        · next mtime read =>
          split_ifs with same
          · exact Onward.refl
          · have confirms : w.Confirms (.recheck raw disk luck) =
                Again cur .rescanned disk := by
              funext dir name
              simp [Confirms, refreshed, slot, read, absolute, same]
            rw [confirms]
            exact Onward.refresh inStep slot
      · exact Onward.refl
    · exact Onward.refl
  | begin i opens => exact absurd rfl (notBegin i opens)
  | readBatch i stat => exact absurd rfl (notRead i stat)
  | publishBatch i luck => exact absurd rfl (notPublish i luck)
  | evict victims => exact dropped fun raw => victims raw ∧ ¬w.pinned raw
  | setLimits victims => exact dropped fun raw => victims raw
  | deliver peer =>
    simp only [World.act, World.deliver]
    split <;> exact Onward.refl.congr rfl rfl

/-! ## What holds of the batches -/

/-- The listing a reader reads for has not gone back. -/
def Ahead (w : World) (raw : DirPath) (of seen : Nat) : Prop :=
  of < w.nextDir ∧ ∀ l, w.slots raw = some l → l.dir = of → seen ≤ l.generation

/-- A batch that waits: while nothing was published since it was read, what it holds was
read after what the listing holds. -/
structure Waits (w : World) (b : Batch) : Prop where
  ahead : w.Ahead b.raw b.of b.seen
  time : b.time ≤ w.clock
  newer : ∀ l, w.slots b.raw = some l → l.dir = b.of → l.generation = b.seen →
    ∀ filled ∈ b.filled, w.readAt b.of filled.name ≤ b.time

/-- A batch replaced what was read before it, of its own listing. -/
def Overwrite.Sound (o : Overwrite) : Prop :=
  o.batch = o.listing ∧ ∀ time ∈ o.held, time ≤ o.read

structure Timely (w : World) : Prop where
  read : ∀ d name, w.readAt d name ≤ w.clock
  spawned : ∀ i task, w.tasks i = some task → i < w.spawned
  reading : ∀ i raw direct of seen todo size,
    w.tasks i = some ⟨raw, direct, .reading of seen todo size⟩ → w.Ahead raw of seen
  waiting : ∀ i, ∀ b ∈ w.batch i, w.Waits b
  sound : ∀ o ∈ w.overwrites, Overwrite.Sound o

theorem batch_eq {i : Nat} {b : Batch} (isBatch : w.batch i = some b) :
    ∃ direct todo size resort,
      w.tasks i = some ⟨b.raw, direct, .read b.of b.seen todo size b.filled resort b.time⟩ := by
  unfold batch at isBatch
  split at isBatch
  · next eq =>
    cases isBatch
    exact ⟨_, _, _, _, eq⟩
  · cases isBatch

theorem Ahead.onward {again : Nat → Name → Prop} {raw : DirPath} {of seen : Nat}
    (ahead : w.Ahead raw of seen) (onward : Onward again w w') : w'.Ahead raw of seen := by
  refine ⟨Nat.lt_of_lt_of_le ahead.1 onward.nextDir, fun l' slot same => ?_⟩
  rcases onward.slots raw l' slot with anew | ⟨l, old, dir, kept⟩
  · have := ahead.1
    omega
  · have bound := ahead.2 l old (dir.symm.trans same)
    rcases kept with later | ⟨unchanged, -⟩ <;> omega

theorem Waits.onward {again : Nat → Name → Prop} {b : Batch} (waits : w.Waits b)
    (onward : Onward again w w')
    (orderly : w.current b → ∀ filled ∈ b.filled, ¬again b.of filled.name) : w'.Waits b where
  ahead := waits.ahead.onward onward
  time := onward.clock.symm ▸ waits.time
  newer := by
    intro l' slot same generation filled member
    rcases onward.slots b.raw l' slot with anew | ⟨l, old, dir, kept⟩
    · have := waits.ahead.1
      omega
    have isOf : l.dir = b.of := dir.symm.trans same
    have bound := waits.ahead.2 l old isOf
    rcases kept with later | ⟨unchanged, kept⟩
    · omega
    have isSeen : l.generation = b.seen := unchanged.symm.trans generation
    have current : w.current b := by simp [World.current, old, isOf, isSeen]
    rw [isOf] at kept
    rw [kept filled.name (orderly current filled member)]
    exact waits.newer l old isOf isSeen filled member

theorem Timely.onward {again : Nat → Name → Prop} (timely : w.Timely)
    (onward : Onward again w w')
    (orderly : ∀ i < w.spawned, ∀ b ∈ w.batch i, w.current b →
      ∀ filled ∈ b.filled, ¬again b.of filled.name) : w'.Timely where
  read d name := onward.clock.symm ▸ onward.read timely.read d name
  spawned i task isTask := by
    rcases onward.tasks i task isTask with old | ⟨-, before⟩
    · exact Nat.lt_of_lt_of_le (timely.spawned i task old) onward.spawned
    · exact before
  reading i raw direct of seen todo size isTask := by
    rcases onward.tasks i _ isTask with old | ⟨opened, -⟩
    · exact (timely.reading i raw direct of seen todo size old).onward onward
    · cases opened
  waiting i b isBatch := by
    rcases batch_eq isBatch with ⟨direct, todo, size, resort, isTask⟩
    rcases onward.tasks i _ isTask with old | ⟨opened, -⟩
    · have member : b ∈ w.batch i := by simp [World.batch, old]
      exact (timely.waiting i b member).onward onward
        (orderly i (timely.spawned i _ old) b member)
    · cases opened
  sound := onward.overwrites.symm ▸ timely.sound

theorem Timely.setStage {i : Nat} {task : Task} {stage : Option Stage} (timely : w.Timely)
    (isTask : w.tasks i = some task)
    (reading : ∀ of seen todo size, stage = some (.reading of seen todo size) →
      w.Ahead task.raw of seen)
    (waiting : ∀ of seen todo size filled resort time,
      stage = some (.read of seen todo size filled resort time) →
      w.Waits ⟨task.raw, of, seen, filled, time⟩) : (w.setStage i task stage).Timely where
  read := timely.read
  spawned j other isOther := by
    rcases eq_or_ne j i with rfl | different
    · exact timely.spawned j task isTask
    · simp only [World.setStage, Function.update_of_ne different] at isOther
      exact timely.spawned j other isOther
  reading j raw direct of seen todo size isOther := by
    rcases eq_or_ne j i with rfl | different
    · simp only [World.setStage, Function.update_self, Option.map_eq_some_iff] at isOther
      rcases isOther with ⟨now, isNow, same⟩
      cases same
      exact reading of seen todo size isNow
    · simp only [World.setStage, Function.update_of_ne different] at isOther
      exact timely.reading j raw direct of seen todo size isOther
  waiting j b isBatch := by
    rcases batch_eq isBatch with ⟨direct, todo, size, resort, isOther⟩
    rcases eq_or_ne j i with rfl | different
    · simp only [World.setStage, Function.update_self, Option.map_eq_some_iff] at isOther
      rcases isOther with ⟨now, isNow, same⟩
      have stageEq : now = _ := congrArg Task.stage same
      have rawEq : task.raw = b.raw := congrArg Task.raw same
      rw [stageEq] at isNow
      have waits := waiting _ _ _ _ _ _ _ isNow
      rw [rawEq] at waits
      exact ⟨waits.ahead, waits.time, waits.newer⟩
    · simp only [World.setStage, Function.update_of_ne different] at isOther
      have waits := timely.waiting j b (by simp [World.batch, isOther])
      exact ⟨waits.ahead, waits.time, waits.newer⟩
  sound := timely.sound

theorem Timely.begin {i : Nat} {opens : Bool} (timely : w.Timely) (inStep : w.InStep) :
    (w.begin i opens).Timely := by
  unfold World.begin
  split
  case h_2 => exact timely
  case h_1 task isTask =>
    split
    · next cur stage slot =>
      apply timely.setStage isTask
      · intro of seen todo size same
        split_ifs at same
        cases same
        refine ⟨inStep.dir_lt slot, fun l held _ => ?_⟩
        rw [slot] at held
        exact (Option.some.inj held) ▸ Nat.le_refl _
      · intro of seen todo size filled resort time same
        split_ifs at same
        cases same
    · exact timely.setStage isTask (by simp) (by simp)
    · exact timely

theorem Timely.readBatch {i : Nat} {stat : Name → Option Stat} (timely : w.Timely) :
    (w.readBatch i stat).Timely := by
  unfold World.readBatch
  split
  case h_2 => exact timely
  case h_1 task isTask =>
    rcases task with ⟨raw, direct, stage⟩
    dsimp only
    split
    · exact timely.setStage isTask (by simp) (by simp)
    · next of seen entry rest size =>
      have ahead := timely.reading i raw direct of seen _ _ isTask
      apply timely.setStage isTask
      · intro of' seen' todo' size' same
        split_ifs at same <;> cases same
        exact ahead
      · intro of' seen' todo' size' filled' resort' time' same
        split_ifs at same <;> cases same
        exact ⟨ahead, Nat.le_refl _, fun l slot dir generation filled member =>
          timely.read _ _⟩
    · exact timely

theorem Waits.replaced {b : Batch} {cur : Listing} (waits : w.Waits b)
    (slot : w.slots b.raw = some cur) (home : ¬w.strays b) :
    ∀ o ∈ w.replaced cur b.of b.time (kept cur b.seen b.filled), Overwrite.Sound o := by
  intro o member
  rcases List.mem_filterMap.mp member with ⟨filled, isKept, isReplaced⟩
  rcases Option.map_eq_some_iff.mp isReplaced with ⟨old, isOld, rfl⟩
  have own : cur.dir = b.of := by
    by_contra other
    apply home
    simp only [strays, slot, other, decide_true, ne_eq, not_false_eq_true, Bool.and_eq_true,
      decide_eq_true_eq, true_and, List.any_eq_true]
    exact ⟨filled, isKept, by simp [isOld]⟩
  refine ⟨own.symm, fun time held => ?_⟩
  have name : old.name = filled.name := by simpa using List.find?_some isOld
  dsimp only at held
  split_ifs at held with missing
  · cases held
  cases held
  rw [own, name]
  unfold kept at isKept
  split_ifs at isKept with published
  · -- Something was published since: only what lacks metadata is replaced.
    have owing := (List.mem_filter.mp isKept).2
    simp only [owed, isOld, Option.any_some, Bool.decide_and, Bool.and_eq_true,
      decide_eq_true_eq] at owing
    exact absurd owing.1 missing
  · exact waits.newer cur slot own (Decidable.not_not.mp published) filled isKept

/-- A batch is put onto what is cached: its listing's number grows, or nothing changes. -/
theorem Onward.noteBatch {raw : DirPath} {cur : Listing} {of time : Nat} {batch : List Entry}
    {resort : Bool} {direct : Option Direct} {luck : Luck} (inStep : w.InStep)
    (slot : w.slots raw = some cur) (past : time ≤ w.clock) :
    Onward (fun _ _ => False)
      { w with overwrites := w.replaced cur of time batch ++ w.overwrites }
      ((w.noteBatch cur of time batch).publish fits lower raw cur ⟨[], [], batch⟩ resort
        cur.mtimeNs direct luck).1 := by
  have published : Onward (fun _ _ => False) (w.noteBatch cur of time batch)
      ((w.noteBatch cur of time batch).publish fits lower raw cur ⟨[], [], batch⟩ resort
        cur.mtimeNs direct luck).1 := publish slot
  refine { published with slots := fun other l' held => ?_, read := fun before => ?_ }
  · rcases published.slots other l' held with anew | ⟨l, old, dir, later | ⟨same, kept⟩⟩
    · exact .inl anew
    · exact .inr ⟨l, old, dir, .inl later⟩
    · refine .inr ⟨l, old, dir, .inr ⟨same, fun name _ => ?_⟩⟩
      rw [kept name id]
      apply if_neg
      rintro ⟨isCur, isNoted⟩
      have here : other = raw := inStep.apart other raw l cur old slot isCur
      subst here
      have isCached : l = cur := Option.some.inj (old.symm.trans slot)
      subst isCached
      have changed : Diff.isEmpty ⟨[], [], batch⟩ = false := by
        cases batch with
        | nil => simp at isNoted
        | cons filled batch => simp [Diff.isEmpty]
      have later := (publish_later changed held).1
      omega
  · apply published.read
    intro d name
    show (if d = cur.dir ∧ name ∈ batch.map (·.name) then time else w.readAt d name) ≤ w.clock
    split_ifs
    · exact past
    · exact before d name

theorem publish_number {raw : DirPath} {cur : Listing} {change : Diff} {resort : Bool}
    {mtimeNs : Option Int} {direct : Option Direct} {luck : Luck} :
    (w.publish fits lower raw cur change resort mtimeNs direct luck).2 =
      if change.isEmpty then none else some (cur.generation + 1) := by
  unfold World.publish
  split_ifs <;> rfl

theorem Timely.publishBatch {i : Nat} {luck : Luck} (timely : w.Timely) (inStep : w.InStep)
    (orderly : ∀ b ∈ w.batch i, ¬w.strays b) :
    (w.publishBatch fits lower i luck).Timely := by
  unfold World.publishBatch
  split
  case h_2 => exact timely
  case h_1 task isTask =>
    rcases task with ⟨raw, direct, stage⟩
    dsimp only
    split
    · exact timely.setStage isTask (by simp) (by simp)
    · next of seen left size filled resort time cur slot =>
      let b : Batch := ⟨raw, of, seen, filled, time⟩
      have isBatch : b ∈ w.batch i := by simp [World.batch, isTask, b]
      have waits : w.Waits b := timely.waiting i b isBatch
      let batch := kept cur seen filled
      have noted : Timely { w with overwrites := w.replaced cur of time batch ++ w.overwrites } :=
        { timely with
          waiting := fun j other isOther =>
            have waits := timely.waiting j other isOther
            ⟨waits.ahead, waits.time, waits.newer⟩
          sound := fun o member => (List.mem_append.mp member).elim
            (waits.replaced slot (orderly b isBatch) o) (timely.sound o) }
      let result := (w.noteBatch cur of time batch).publish fits lower raw cur ⟨[], [], batch⟩
        resort cur.mtimeNs (some direct) luck
      have onward : Onward (fun _ _ => False)
          { w with overwrites := w.replaced cur of time batch ++ w.overwrites } result.1 :=
        Onward.noteBatch inStep slot waits.time
      have published : result.1.Timely := noted.onward onward fun _ _ _ _ _ _ _ => id
      have stays : result.1.tasks i =
          some ⟨raw, direct, .read of seen left size filled resort time⟩ := by
        simp only [result, World.publish]
        split_ifs <;> simpa [World.noteBatch, World.noteRead, World.store, World.evict] using isTask
      show (result.1.setStage i _ _).Timely
      apply published.setStage stays
      · intro of' seen' todo' size' same
        cases same
        refine ⟨Nat.lt_of_lt_of_le waits.ahead.1 onward.nextDir, fun l held isOf => ?_⟩
        show result.2.getD cur.generation ≤ l.generation
        rw [publish_number]
        split_ifs with unchanged
        · rcases onward.slots raw l held with anew | ⟨old, isOld, dir, kept⟩
          · have known : of < w.nextDir := waits.ahead.1
            have anew : w.nextDir ≤ l.dir := anew
            omega
          · have isCached : old = cur := Option.some.inj (isOld.symm.trans slot)
            rw [← isCached, Option.getD_none]
            rcases kept with later | ⟨same, -⟩ <;> omega
        · exact (publish_later (by simpa using unchanged) held).1
      · intro of' seen' todo' size' filled' resort' time' same
        cases same
    · exact timely

theorem publishBatch_clock {i : Nat} {luck : Luck} :
    (w.publishBatch fits lower i luck).clock = w.clock := by
  unfold World.publishBatch
  split
  case h_2 => rfl
  case h_1 task isTask =>
    split
    · rfl
    · next of seen left size filled resort time cur stage slot =>
      have onward := @Onward.publish fits lower (w.noteBatch cur of time (kept cur seen filled))
          (fun _ _ => False) _ _ luck (some task.direct) ⟨[], [], kept cur seen filled⟩ resort
          cur.mtimeNs slot
      exact onward.clock
    · rfl

theorem Timely.step {input : Input} (timely : w.Timely) (inStep : w.InStep)
    (orderly : w.Orderly input) : (w.step fits lower input).Timely := by
  have acted : (w.act fits lower input).Timely ∧ (w.act fits lower input).clock = w.clock := by
    have other : (∀ i opens, input ≠ .begin i opens) → (∀ i stat, input ≠ .readBatch i stat) →
        (∀ i luck, input ≠ .publishBatch i luck) →
        (w.act fits lower input).Timely ∧ (w.act fits lower input).clock = w.clock := by
      intro notBegin notRead notPublish
      have onward := @Onward.act fits lower _ _ inStep notBegin notRead notPublish
      refine ⟨timely.onward onward ?_, onward.clock⟩
      cases input
      case publishBatch i luck => exact absurd rfl (notPublish i luck)
      all_goals exact orderly
    cases input
    case begin i opens =>
      refine ⟨timely.begin inStep, ?_⟩
      simp only [World.act, World.begin]
      split
      · split <;> rfl
      · rfl
    case readBatch i stat =>
      refine ⟨timely.readBatch, ?_⟩
      simp only [World.act, World.readBatch]
      split
      · split <;> rfl
      · rfl
    case publishBatch i luck =>
      exact ⟨timely.publishBatch inStep orderly, publishBatch_clock⟩
    all_goals exact other (by simp) (by simp) (by simp)
  rcases acted with ⟨acted, clock⟩
  have later : w.clock ≤ w.clock + 1 := Nat.le_succ _
  constructor
  · intro d name
    have bound := acted.read d name
    rw [clock] at bound
    exact Nat.le_succ_of_le bound
  · exact acted.spawned
  · exact acted.reading
  · intro i b isBatch
    have waits := acted.waiting i b isBatch
    refine ⟨waits.ahead, ?_, waits.newer⟩
    have bound := waits.time
    rw [clock] at bound
    exact Nat.le_succ_of_le bound
  · exact acted.sound

theorem inStep_start : World.start.InStep where
  numbered := .nil
  cached _ _ slot := by cases slot
  fresh _ member := by cases member
  apart _ _ _ _ slot := by cases slot
  queued _ _ member := by cases member
  viewed _ _ member := by cases member

theorem timely_start : World.start.Timely where
  read _ _ := Nat.le_refl _
  spawned _ _ isTask := by cases isTask
  reading _ _ _ _ _ _ _ isTask := by cases isTask
  waiting _ _ isBatch := by cases isBatch
  sound _ member := by cases member

variable (fits lower) in
def run (inputs : List Input) : World := inputs.foldl (step fits lower) start

variable (fits lower) in
/-- Every input of a run is in order where it comes. -/
def OrderlyRun (inputs : List Input) : Prop := Along (step fits lower) Orderly start inputs

theorem inStep_run (inputs : List Input) : (run fits lower inputs).InStep := by
  unfold run
  induction inputs using List.reverseRecOn with
  | nil => exact inStep_start
  | append_singleton past input induction =>
    rw [List.foldl_append]
    exact induction.step

theorem timely_run {inputs : List Input} (orderly : OrderlyRun fits lower inputs) :
    (run fits lower inputs).Timely := by
  unfold run
  induction inputs using List.reverseRecOn with
  | nil => exact timely_start
  | append_singleton past input induction =>
    rcases Foundation.along_snoc.mp orderly with ⟨before, now⟩
    rw [List.foldl_append]
    exact (induction before).step (inStep_run past) now

/-- Views are in step: a number of a listing is published with one content, numbers have no
gap and come in order, clients show what was published under the number they hold, and
batches replace only older metadata of their own listing. -/
structure ViewsInStep (w : World) : Prop where
  oneContent : ∀ u ∈ w.published, ∀ v ∈ w.published, u.key = v.key → u.number = v.number →
    u.content = v.content
  noGap : ∀ v ∈ w.published, ∀ number ≤ v.number,
    ∃ u ∈ w.published, u.key = v.key ∧ u.number = number
  inOrder : ∀ later v before, w.published = later ++ v :: before →
    ∀ u ∈ before, u.key = v.key → u.number ≤ v.number
  shown : ∀ peer, ∀ dir ∈ (w.views peer).dir,
    ⟨dir, (w.views peer).generation, ⟨(w.views peer).entries, (w.views peer).order⟩⟩ ∈ w.published
  batches : ∀ o ∈ w.overwrites, Overwrite.Sound o

/-- In every run whose batches are published onto the listing they were read for, with
nothing in between that confirms what they replace, the views are in step. -/
theorem views_inStep (fits : Reply → Bool) (lower : Name → String) (inputs : List Input)
    (orderly : OrderlyRun fits lower inputs) : ViewsInStep (run fits lower inputs) where
  oneContent u isU v isV key number := (inStep_run inputs).numbered.one_content isU isV key number
  noGap v isV number bound := (inStep_run inputs).numbered.consecutive isV number bound
  inOrder later v before split u isU key := by
    have numbered := (@inStep_run fits lower inputs).numbered
    rw [split] at numbered
    exact numbered.inOrder isU key
  shown peer dir member := (inStep_run inputs).viewed peer dir member
  batches := (timely_run orderly).sound

end World

/-! ## A listing made anew -/

namespace World

def home : DirPath := [47, 104]

def oneFile : Disk where
  mtime := .ok 5
  scanned := some 5
  batches := []
  tail := .ok [.new [97] .file]
  opens := true
  stat := fun _ => some ⟨1, 7, 0o100644⟩

def noLuck : Luck := ⟨fun _ _ => false, fun _ => false⟩

/-- A client subscribes, its batch is published, and it takes all it is told. -/
def calmRun : List Input :=
  [.connect 1 (.new home), .openDir home ⟨1, true⟩ oneFile noLuck, .begin 0 true,
    .readBatch 0 fun _ => some ⟨1, 7, 0o100644⟩, .publishBatch 0 noLuck, .deliver 1,
    .deliver 1, .deliver 1]

/-- One client lists a directory, and its reader reads a batch; the listing goes from the
cache, another client has it listed anew, and the batch is published. -/
def anewRun : List Input :=
  [.openDir home ⟨1, false⟩ oneFile noLuck, .begin 0 true,
    .readBatch 0 fun _ => some ⟨1, 7, 0o100644⟩, .evict fun _ => true,
    .openDir home ⟨2, true⟩ oneFile noLuck, .publishBatch 0 noLuck]

instance (fits : Reply → Bool) (lower : Name → String) (inputs : List Input) :
    Decidable (OrderlyRun fits lower inputs) :=
  inferInstanceAs (Decidable (Along _ _ _ _))

theorem views_inStep_calm :
    ViewsInStep (run (fun _ => true) (fun _ => "") calmRun) ∧
      ((run (fun _ => true) (fun _ => "") calmRun).views 1).dir = some 1 :=
  ⟨views_inStep _ _ calmRun (by decide +kernel), by decide +kernel⟩

theorem anewRun_strays : ¬ViewsInStep (run (fun _ => true) (fun _ => "") anewRun) := by
  intro inStep
  have replaced : ⟨2, 1, none, 2⟩ ∈ (run (fun _ => true) (fun _ => "") anewRun).overwrites := by
    decide +kernel
  exact absurd (inStep.batches _ replaced).1 (by decide)

end World

end EclipseOS.Fog.Views
