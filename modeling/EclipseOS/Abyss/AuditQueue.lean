import EclipseOS.Abyss.AuditRec
import EclipseOS.Foundation.Gaps

/-! # The emission queue

Records go to `policyd` through one socket. While it takes none they wait in a queue: an
agent's always, a human's while the queue is short. What is lost is counted, and a marker
takes its place. -/

namespace EclipseOS.Abyss.AuditQueue

open Foundation Marked

/-- Human records held while `policyd` cannot take them. -/
def ring : Nat := 4096

/-- What waits or was sent: an encoded record or message, or a gap marker. -/
abbrev Item := Marked Bytes

def wire : Item → Bytes
  | item bytes => bytes
  | gap dropped => (gapRec (UInt64.ofNat dropped)).write

/-- The emitter, what the socket takes next and what it has taken so far. -/
structure Audit where
  link : Bool
  pending : List Item
  dropped : Nat
  takes : List Bool
  sent : List Item
  deriving DecidableEq

namespace Audit

def backlogged (audit : Audit) : Bool := !audit.pending.isEmpty

def trySend (audit : Audit) (message : Item) : Bool × Audit :=
  if audit.link then
    match audit.takes with
    | true :: rest => (true, { audit with takes := rest, sent := audit.sent ++ [message] })
    | false :: rest => (false, { audit with takes := rest })
    | [] => (false, audit)
  else
    (false, audit)

def flushGap (audit : Audit) : Audit :=
  if 0 < audit.dropped then
    match audit.trySend (gap audit.dropped) with
    | (true, audit) => { audit with dropped := 0 }
    | (false, audit) => audit
  else
    audit

def flushQueue : List Item → Audit → Audit
  | [], audit => flushGap { audit with pending := [] }
  | front :: rest, audit =>
    match audit.trySend front with
    | (true, audit) => flushQueue rest audit
    | (false, audit) => { audit with pending := front :: rest }

/-- Writes queued records until the socket is full or the queue is empty. -/
def flush (audit : Audit) : Audit := flushQueue audit.pending audit

/-- A human record waits while the queue is short. -/
def queueHuman (audit : Audit) (bytes : Bytes) : Bool × Audit :=
  if ring ≤ audit.pending.length then (false, { audit with dropped := audit.dropped + 1 })
  else
    let marked :=
      if 0 < audit.dropped then
        { audit with pending := audit.pending ++ [gap audit.dropped], dropped := 0 }
      else audit
    (true, { marked with pending := marked.pending ++ [item bytes] })

/-- An agent's request: it goes ahead once its record is in the socket. -/
def begin (audit : Audit) (bytes : Bytes) : Bool × Audit :=
  let audit := audit.flush
  if audit.backlogged then (false, audit) else audit.trySend (item bytes)

def agent (audit : Audit) (bytes : Bytes) : Audit :=
  let audit := audit.flush
  if audit.backlogged then { audit with pending := audit.pending ++ [item bytes] }
  else
    match audit.trySend (item bytes) with
    | (true, audit) => audit
    | (false, audit) => { audit with pending := audit.pending ++ [item bytes] }

def message (audit : Audit) (bytes : Bytes) : Audit :=
  flush { audit with pending := audit.pending ++ [item bytes] }

/-- A human record never waits for the socket. True when it was not dropped. -/
def human (audit : Audit) (bytes : Bytes) : Bool × Audit :=
  let audit := audit.flush
  if audit.backlogged then audit.queueHuman bytes
  else
    match audit.trySend (item bytes) with
    | (true, audit) => (true, audit)
    | (false, audit) => audit.queueHuman bytes

def down (audit : Audit) : Audit := { audit with link := false }

/-- The link came up, unless its descriptor cannot be duplicated. -/
def up (audit : Audit) (cloned : Bool) : Audit :=
  if cloned then flush { audit.down with link := true } else audit.down

/-! ## What a step leaves alone -/

/-- What was sent, what waits and the marker owed. -/
def stream (audit : Audit) : List Item := audit.sent ++ audit.pending ++ mark audit.dropped

variable {audit after : Audit} {bytes : Bytes}

/-- Sending puts the message behind what was sent, or changes nothing of the stream. -/
inductive Sent (audit : Audit) (first : Item) : Bool × Audit → Prop
  | taken (takes : List Bool) :
      Sent audit first (true, { audit with takes, sent := audit.sent ++ [first] })
  | full (takes : List Bool) : Sent audit first (false, { audit with takes })

theorem trySend_spec (audit : Audit) (first : Item) : Sent audit first (audit.trySend first) := by
  rw [trySend]
  split
  · split
    · exact .taken _
    · exact .full _
    · exact .full audit.takes
  · exact .full audit.takes

/-- What a flush does: the stream stays, and a marker that was owed is owed still or sent,
with nothing left waiting. -/
structure Flushed (audit after : Audit) : Prop where
  stream : after.stream = audit.stream
  owed : after.dropped = audit.dropped ∨ after.dropped = 0 ∧ after.pending = []
  idle : audit.pending = [] → after.pending = []

theorem flushGap_spec (idle : audit.pending = []) : Flushed audit audit.flushGap := by
  rw [flushGap]
  split
  · rename_i some
    have sends := audit.trySend_spec (gap audit.dropped)
    generalize audit.trySend (gap audit.dropped) = result at sends
    cases sends with
    | taken takes =>
      refine ⟨?_, Or.inr ⟨rfl, idle⟩, fun _ => idle⟩
      have owed : mark audit.dropped = [(gap audit.dropped : Item)] := if_neg (by omega)
      simp [stream, idle, owed]
    | full takes => exact ⟨rfl, Or.inl rfl, fun _ => idle⟩
  · exact ⟨rfl, Or.inl rfl, fun _ => idle⟩

theorem flushQueue_spec (waiting : List Item) (audit : Audit) :
    Flushed { audit with pending := waiting } (flushQueue waiting audit) := by
  induction waiting generalizing audit with
  | nil => exact flushGap_spec rfl
  | cons front rest induction =>
    rw [flushQueue]
    have sends := audit.trySend_spec front
    generalize audit.trySend front = result at sends
    cases sends with
    | full takes => exact ⟨rfl, Or.inl rfl, fun idle => (by cases idle)⟩
    | taken takes =>
      have rest := induction { audit with takes, sent := audit.sent ++ [front] }
      refine ⟨?_, rest.owed, fun idle => (by cases idle)⟩
      rw [rest.stream]
      simp [stream]

theorem flush_spec (audit : Audit) : Flushed audit audit.flush :=
  flushQueue_spec audit.pending audit

/-! ## What the socket has to take

Before a flush, what will be owed after it depends on how much the socket takes. -/

/-- The socket takes everything that waits and the marker behind it. -/
def Clears (audit : Audit) : Prop :=
  audit.dropped = 0 ∨
    audit.link = true ∧ List.replicate (audit.pending.length + 1) true <+: audit.takes

/-- The socket takes everything that waits, refuses the marker and takes what comes next. -/
def Overtakes (audit : Audit) : Prop :=
  audit.dropped ≠ 0 ∧ audit.link = true ∧
    List.replicate audit.pending.length true ++ [false, true] <+: audit.takes

theorem trySend_down {first : Item} (down : audit.link = false) :
    audit.trySend first = (false, audit) := by
  rw [trySend, down]
  rfl

theorem trySend_up {first : Item} (up : audit.link = true) :
    audit.trySend first =
      match audit.takes with
      | true :: rest => (true, { audit with takes := rest, sent := audit.sent ++ [first] })
      | false :: rest => (false, { audit with takes := rest })
      | [] => (false, audit) := by
  rw [trySend, up]
  rfl

theorem flushQueue_dropped_iff (waiting : List Item) (audit : Audit) :
    (flushQueue waiting audit).dropped = 0 ↔ Clears { audit with pending := waiting } := by
  unfold Clears
  induction waiting generalizing audit with
  | nil =>
    rw [flushQueue, flushGap]
    split
    · cases link : audit.link with
      | false =>
        rw [trySend_down rfl]
        simp
      | true =>
        rw [trySend_up rfl]
        cases takes : audit.takes with
        | nil => simp
        | cons answer more => cases answer <;> simp
    · rename_i none
      have owed : audit.dropped = 0 := Nat.eq_zero_of_not_pos none
      simp [owed]
  | cons front rest induction =>
    rw [flushQueue]
    cases link : audit.link with
    | false =>
      rw [trySend_down link]
      simp
    | true =>
      rw [trySend_up link]
      cases takes : audit.takes with
      | nil => simp
      | cons answer more =>
        cases answer with
        | false => simp [List.replicate_succ]
        | true =>
          simp only
          rw [induction]
          simp [List.replicate_succ, link]

theorem flushQueue_overtakes_iff (first : Item) (waiting : List Item) (audit : Audit) :
    ((flushQueue waiting audit).dropped ≠ 0 ∧ (flushQueue waiting audit).pending = [] ∧
      ((flushQueue waiting audit).trySend first).1 = true) ↔
        Overtakes { audit with pending := waiting } := by
  unfold Overtakes
  induction waiting generalizing audit with
  | nil =>
    rw [flushQueue, flushGap]
    split
    · rename_i some
      have owed : audit.dropped ≠ 0 := Nat.pos_iff_ne_zero.mp some
      cases link : audit.link with
      | false =>
        rw [trySend_down rfl]
        simp [trySend_down]
      | true =>
        rw [trySend_up rfl]
        cases takes : audit.takes with
        | nil => simp [trySend_up]
        | cons answer more =>
          cases answer with
          | true => simp
          | false =>
            rw [trySend_up rfl]
            cases more with
            | nil => simp
            | cons second more => cases second <;> simp [owed]
    · rename_i none
      have owed : audit.dropped = 0 := Nat.eq_zero_of_not_pos none
      simp [owed]
  | cons front rest induction =>
    rw [flushQueue]
    cases link : audit.link with
    | false =>
      rw [trySend_down link]
      simp
    | true =>
      rw [trySend_up link]
      cases takes : audit.takes with
      | nil => simp
      | cons answer more =>
        cases answer with
        | false => simp [List.replicate_succ]
        | true =>
          simp only
          rw [induction]
          simp [List.replicate_succ, link]

/-! ## One record

`slots` are the records so far, with `none` for one that was dropped. -/

variable {slots : List (Option Bytes)}

structure Tells (audit : Audit) (slots : List (Option Bytes)) : Prop where
  stream : audit.stream = marked slots
  owed : audit.dropped = trailing slots ∨ audit.dropped = 0 ∧ audit.pending = []

theorem Tells.flush (tells : Tells audit slots) : Tells audit.flush slots := by
  have flushed := audit.flush_spec
  refine ⟨flushed.stream.trans tells.stream, ?_⟩
  rcases flushed.owed with same | sent
  · rw [same]
    rcases tells.owed with owed | ⟨none, idle⟩
    · exact Or.inl owed
    · exact Or.inr ⟨none, flushed.idle idle⟩
  · exact Or.inr sent

/-- A record goes behind everything else, whatever marker is owed. -/
structure Added (audit after : Audit) (bytes : Bytes) : Prop where
  items : after.sent ++ after.pending = audit.sent ++ audit.pending ++ [item bytes]
  dropped : after.dropped = audit.dropped

theorem Added.tells (added : Added audit after bytes) (tells : Tells audit slots)
    (marked : audit.dropped = 0) : Tells after (slots ++ [some bytes]) := by
  have stream := tells.stream
  rw [Audit.stream, marked, mark_zero, List.append_nil] at stream
  constructor
  · rw [Audit.stream, added.items, added.dropped, marked, stream, marked_some, mark_zero,
      List.append_nil]
  · rw [added.dropped, marked, trailing_some]
    exact Or.inl rfl

theorem Added.overtakes (added : Added audit after bytes) (tells : Tells audit slots)
    (owed : audit.dropped ≠ 0) : after.stream ≠ marked (slots ++ [some bytes]) := by
  rw [Audit.stream, added.items, added.dropped, marked_some, ← tells.stream, Audit.stream]
  exact late_mark_ne owed _ bytes

theorem queueHuman_tells (tells : Tells audit slots) :
    Tells (audit.queueHuman bytes).2
      (slots ++ [if (audit.queueHuman bytes).1 then some bytes else none]) := by
  rw [queueHuman]
  split
  · rename_i full
    have waiting : audit.pending ≠ [] := by
      intro idle
      rw [idle] at full
      exact absurd full (by decide)
    have owed : audit.dropped = trailing slots := by
      rcases tells.owed with owed | ⟨_, idle⟩
      · exact owed
      · exact absurd idle waiting
    have stream := tells.stream
    rw [Audit.stream, marked, owed] at stream
    constructor
    · change _ = marked (slots ++ [none])
      rw [marked_none, ← List.append_cancel_right stream, Audit.stream, owed]
      rfl
    · exact Or.inl (by simp [owed])
  · have stream := tells.stream
    constructor
    · split
      · rename_i some
        have owed : mark audit.dropped = [(gap audit.dropped : Item)] := if_neg (by omega)
        rw [Audit.stream, owed] at stream
        simp [Audit.stream, ← stream]
      · rename_i none
        have owed : audit.dropped = 0 := by omega
        rw [Audit.stream, owed, mark_zero] at stream
        simp [Audit.stream, owed, ← stream]
    · split
      · exact Or.inl (by simp)
      · rename_i none
        have owed : audit.dropped = 0 := by omega
        exact Or.inl (by simp [owed])

theorem agent_added (audit : Audit) (bytes : Bytes) :
    Added audit.flush (audit.agent bytes) bytes := by
  rw [agent]
  split
  · exact ⟨(List.append_assoc _ _ _).symm, rfl⟩
  · rename_i idle
    rw [backlogged, Bool.not_eq_true, Bool.not_eq_false', List.isEmpty_iff] at idle
    have sends := audit.flush.trySend_spec (item bytes)
    generalize audit.flush.trySend (item bytes) = result at sends
    cases sends with
    | full takes => exact ⟨(List.append_assoc _ _ _).symm, rfl⟩
    | taken takes => exact ⟨by simp [idle], rfl⟩

theorem message_added (audit : Audit) (bytes : Bytes) :
    Added audit { audit with pending := audit.pending ++ [item bytes] } bytes :=
  ⟨(List.append_assoc _ _ _).symm, rfl⟩

theorem sent_added {takes : List Bool} (idle : audit.pending = []) :
    Added audit { audit with takes, sent := audit.sent ++ [item bytes] } bytes :=
  ⟨by simp [idle], rfl⟩

end Audit

/-! ## Runs -/

inductive Source where
  | agent
  | message
  | human
  deriving DecidableEq

/-- A record that was emitted, whether it was kept, and how many waited when that was
decided. -/
structure Entry where
  source : Source
  bytes : Bytes
  kept : Bool
  backlog : Nat
  deriving DecidableEq

def Entry.slot (entry : Entry) : Option Bytes := if entry.kept then some entry.bytes else none

/-- The emitter, the agents hook and every record emitted so far. -/
structure World where
  audit : Audit
  on : Bool
  log : List Entry
  deriving DecidableEq

/-- Every event that sends comes with what the socket takes of it. -/
inductive Event where
  | hook (on : Bool)
  | up (cloned : Bool) (takes : List Bool)
  | down
  | writable (takes : List Bool)
  | begin (bytes : Bytes) (takes : List Bool)
  | agent (bytes : Bytes) (takes : List Bool)
  | message (bytes : Bytes) (takes : List Bool)
  | human (bytes : Bytes) (takes : List Bool)
  deriving DecidableEq

namespace World

def start : World := ⟨⟨false, [], 0, [], []⟩, false, []⟩

def facing (world : World) (takes : List Bool) : Audit := { world.audit with takes }

def step (world : World) : Event → World
  | .hook on => { world with on }
  | .up cloned takes => { world with audit := (world.facing takes).up cloned }
  | .down => { world with audit := world.audit.down }
  | .writable takes => { world with audit := (world.facing takes).flush }
  | .begin bytes takes =>
    if world.on then
      let (admitted, audit) := (world.facing takes).begin bytes
      -- a request that is not admitted emits nothing
      { world with
        audit
        log := if admitted then world.log ++ [⟨.agent, bytes, true, 0⟩] else world.log }
    else
      world
  | .agent bytes takes =>
    if world.on then
      { world with
        audit := (world.facing takes).agent bytes
        log := world.log ++ [⟨.agent, bytes, true, (world.facing takes).flush.pending.length⟩] }
    else
      world
  | .message bytes takes =>
    { world with
      audit := (world.facing takes).message bytes
      log := world.log ++ [⟨.message, bytes, true, world.audit.pending.length⟩] }
  | .human bytes takes =>
    if world.on then
      let (kept, audit) := (world.facing takes).human bytes
      { world with
        audit
        log := world.log ++
          [⟨.human, bytes, kept, (world.facing takes).flush.pending.length⟩] }
    else
      world

def run (world : World) (events : List Event) : World := events.foldl step world

/-- No record is emitted past a gap that is not marked yet. -/
def InPlace (world : World) : Event → Prop
  | .begin _ takes | .human _ takes => world.on = true → ¬(world.facing takes).Overtakes
  | .agent _ takes => world.on = true → (world.facing takes).Clears
  | .message _ _ => world.audit.dropped = 0
  | _ => True

def AllInPlace (world : World) : List Event → Prop
  | [] => True
  | event :: rest => world.InPlace event ∧ AllInPlace (world.step event) rest

/-- The records so far, with `none` for one that was dropped. -/
def slots (world : World) : List (Option Bytes) := world.log.map Entry.slot

/-- Only a human's record is dropped, from a full ring. -/
structure Logged (world : World) : Prop where
  kept : ∀ entry ∈ world.log, entry.source ≠ .human → entry.kept = true
  full : ∀ entry ∈ world.log, entry.kept = false → ring ≤ entry.backlog

/-- What reached the socket, what waits and the marker owed are the records emitted, in
order, with one marker for every gap. -/
structure Accounted (world : World) : Prop extends Logged world where
  stream : world.audit.stream = marked world.slots

variable {world : World} {event : Event}

theorem Logged.snoc {entry : Entry} {audit : Audit} (logged : Logged world)
    (kept : entry.source ≠ .human → entry.kept = true)
    (full : entry.kept = false → ring ≤ entry.backlog) :
    Logged { world with audit, log := world.log ++ [entry] } := by
  constructor
  · intro other member
    rcases List.mem_append.mp member with old | new
    · exact logged.kept other old
    · cases List.mem_singleton.mp new
      exact kept
  · intro other member
    rcases List.mem_append.mp member with old | new
    · exact logged.full other old
    · cases List.mem_singleton.mp new
      exact full

theorem human_full {audit : Audit} {bytes : Bytes} (dropped : (audit.human bytes).1 = false) :
    ring ≤ audit.flush.pending.length := by
  rw [Audit.human] at dropped
  have refused (audit : Audit) (dropped : (audit.queueHuman bytes).1 = false) :
      ring ≤ audit.pending.length := by
    rw [Audit.queueHuman] at dropped
    split at dropped
    · assumption
    · cases dropped
  split at dropped
  · exact refused _ dropped
  · have sends := audit.flush.trySend_spec (item bytes)
    generalize audit.flush.trySend (item bytes) = result at sends dropped
    cases sends with
    | taken takes => cases dropped
    | full takes => exact refused { audit.flush with takes } dropped

theorem Logged.step (logged : Logged world) (event : Event) : Logged (world.step event) := by
  cases event with
  | hook on => exact ⟨logged.kept, logged.full⟩
  | up cloned takes => exact ⟨logged.kept, logged.full⟩
  | down => exact ⟨logged.kept, logged.full⟩
  | writable takes => exact ⟨logged.kept, logged.full⟩
  | message bytes takes => exact logged.snoc (fun _ => rfl) fun lost => (by cases lost)
  | agent bytes takes =>
    rw [World.step]
    split
    · exact logged.snoc (fun _ => rfl) fun lost => (by cases lost)
    · exact logged
  | human bytes takes =>
    rw [World.step]
    split
    · exact logged.snoc (fun other => absurd rfl other) human_full
    · exact logged
  | begin bytes takes =>
    rw [World.step]
    split
    · simp only
      split
      · exact logged.snoc (fun _ => rfl) fun lost => (by cases lost)
      · exact ⟨logged.kept, logged.full⟩
    · exact logged

theorem facing_tells (takes : List Bool) (tells : Audit.Tells world.audit world.slots) :
    Audit.Tells (world.facing takes) world.slots :=
  ⟨tells.stream, tells.owed⟩

theorem slots_snoc (audit : Audit) (entry : Entry) :
    slots { world with audit, log := world.log ++ [entry] } = world.slots ++ [entry.slot] := by
  rw [slots, List.map_append]
  rfl

/-- The stream tells of every record after a step, exactly when the step is in place. -/
structure Placed (inPlace : Prop) (after : World) : Prop where
  tells : inPlace → Audit.Tells after.audit after.slots
  overtaken : ¬inPlace → after.audit.stream ≠ marked after.slots

theorem Placed.always {after : World} {inPlace : Prop} (holds : inPlace)
    (tells : Audit.Tells after.audit after.slots) : Placed inPlace after :=
  ⟨fun _ => tells, fun not => absurd holds not⟩

theorem Placed.added {audit after : Audit} {entry : Entry} {inPlace : Prop}
    (tells : Audit.Tells audit world.slots) (added : Audit.Added audit after entry.bytes)
    (kept : entry.kept = true) (owes : inPlace ↔ audit.dropped = 0) :
    Placed inPlace { world with audit := after, log := world.log ++ [entry] } := by
  have slot : entry.slot = some entry.bytes := if_pos kept
  constructor
  · intro holds
    rw [slots_snoc, slot]
    exact added.tells tells (owes.mp holds)
  · intro fails
    rw [slots_snoc, slot]
    exact added.overtakes tells fun clear => fails (owes.mpr clear)

theorem overtakes_iff {audit : Audit} (bytes : Bytes) (idle : audit.flush.backlogged = false)
    (sent : (audit.flush.trySend (item bytes)).1 = true) :
    audit.Overtakes ↔ audit.flush.dropped ≠ 0 := by
  rw [Audit.backlogged, Bool.not_eq_false', List.isEmpty_iff] at idle
  have exactly := Audit.flushQueue_overtakes_iff (item bytes) audit.pending audit
  exact ⟨fun overtakes => (exactly.mpr overtakes).1, fun owed => exactly.mp ⟨owed, idle, sent⟩⟩

theorem not_overtakes (audit : Audit) (bytes : Bytes)
    (waits : audit.flush.backlogged = true ∨ (audit.flush.trySend (item bytes)).1 = false) :
    ¬audit.Overtakes := by
  intro overtakes
  obtain ⟨_, idle, sent⟩ :=
    (Audit.flushQueue_overtakes_iff (item bytes) audit.pending audit).mpr overtakes
  rcases waits with waits | refused
  · rw [Audit.backlogged, Audit.flush, idle] at waits
    cases waits
  · rw [Audit.flush, sent] at refused
    cases refused

theorem idle_of {audit : Audit} (idle : audit.backlogged = false) : audit.pending = [] := by
  rw [Audit.backlogged, Bool.not_eq_false', List.isEmpty_iff] at idle
  exact idle

theorem owes {takes : List Bool} (on : world.on = true)
    (overtakes : (world.facing takes).Overtakes ↔ (world.facing takes).flush.dropped ≠ 0) :
    (world.on = true → ¬(world.facing takes).Overtakes) ↔
      (world.facing takes).flush.dropped = 0 := by
  rw [overtakes, not_not]
  exact ⟨fun clear => clear on, fun clear _ => clear⟩

theorem step_placed (tells : Audit.Tells world.audit world.slots) (event : Event) :
    Placed (world.InPlace event) (world.step event) := by
  cases event with
  | hook on => exact .always trivial tells
  | down => exact .always trivial ⟨tells.stream, tells.owed⟩
  | writable takes => exact .always trivial (facing_tells takes tells).flush
  | up cloned takes =>
    apply Placed.always trivial
    rw [step, Audit.up]
    split
    · have linked : Audit.Tells { (world.facing takes).down with link := true } world.slots :=
        ⟨tells.stream, tells.owed⟩
      exact linked.flush
    · exact ⟨tells.stream, tells.owed⟩
  | message bytes takes =>
    have pushed : Placed (world.InPlace (.message bytes takes)) { world with
        audit :=
          { world.facing takes with pending := (world.facing takes).pending ++ [item bytes] }
        log := world.log ++ [⟨.message, bytes, true, world.audit.pending.length⟩] } :=
      .added (facing_tells takes tells) (Audit.message_added _ bytes) rfl Iff.rfl
    constructor
    · intro holds
      exact (pushed.tells holds).flush
    · intro fails
      have stream := (Audit.flush_spec { world.facing takes with
        pending := (world.facing takes).pending ++ [item bytes] }).stream
      rw [step, Audit.message, stream]
      exact pushed.overtaken fails
  | agent bytes takes =>
    rw [step, InPlace]
    split
    · rename_i on
      have clears :=
        Audit.flushQueue_dropped_iff (world.facing takes).pending (world.facing takes)
      exact Placed.added (facing_tells takes tells).flush (Audit.agent_added _ bytes) rfl
        ⟨fun holds => clears.mpr (holds on), fun clear _ => clears.mp clear⟩
    · rename_i off
      exact .always (fun on => absurd on off) tells
  | begin bytes takes =>
    rw [step, InPlace]
    split
    · rename_i on
      have flushed : Audit.Tells (world.facing takes).flush world.slots :=
        (facing_tells takes tells).flush
      rw [Audit.begin]
      simp only
      cases waits : (world.facing takes).flush.backlogged with
      | true => exact .always (fun _ => not_overtakes _ bytes (Or.inl waits)) flushed
      | false =>
        have sends := (world.facing takes).flush.trySend_spec (item bytes)
        have overtakes := overtakes_iff bytes waits
        have refused := not_overtakes (world.facing takes) bytes
        generalize (world.facing takes).flush.trySend (item bytes) = result at *
        cases sends with
        | full more =>
          exact .always (fun _ => refused (Or.inr rfl)) ⟨flushed.stream, flushed.owed⟩
        | taken more =>
          exact .added flushed (Audit.sent_added (idle_of waits)) rfl
            (owes on (overtakes rfl))
    · rename_i off
      exact .always (fun on => absurd on off) tells
  | human bytes takes =>
    rw [step, InPlace]
    split
    · rename_i on
      have flushed : Audit.Tells (world.facing takes).flush world.slots :=
        (facing_tells takes tells).flush
      rw [Audit.human]
      simp only
      have queued (audit : Audit) (tells : Audit.Tells audit world.slots) (backlog : Nat) :
          Audit.Tells (audit.queueHuman bytes).2 (slots { world with
            audit := (audit.queueHuman bytes).2
            log := world.log ++ [⟨.human, bytes, (audit.queueHuman bytes).1, backlog⟩] }) := by
        rw [slots_snoc]
        exact Audit.queueHuman_tells tells
      cases waits : (world.facing takes).flush.backlogged with
      | true =>
        exact .always (fun _ => not_overtakes _ bytes (Or.inl waits)) (queued _ flushed _)
      | false =>
        have sends := (world.facing takes).flush.trySend_spec (item bytes)
        have overtakes := overtakes_iff bytes waits
        have refused := not_overtakes (world.facing takes) bytes
        generalize (world.facing takes).flush.trySend (item bytes) = result at *
        cases sends with
        | full more =>
          exact .always (fun _ => refused (Or.inr rfl))
            (queued { (world.facing takes).flush with takes := more }
              ⟨flushed.stream, flushed.owed⟩ _)
        | taken more =>
          exact .added flushed (Audit.sent_added (idle_of waits)) rfl
            (owes on (overtakes rfl))
    · rename_i off
      exact .always (fun on => absurd on off) tells

theorem run_accounted_iff {events : List Event} (logged : Logged world)
    (tells : Audit.Tells world.audit world.slots) :
    (∀ n, Accounted (world.run (events.take n))) ↔ world.AllInPlace events := by
  induction events generalizing world with
  | nil =>
    refine ⟨fun _ => trivial, fun _ n => ?_⟩
    rw [List.take_nil]
    exact { logged with stream := tells.stream }
  | cons event rest induction =>
    have placed := step_placed tells event
    have logged' := logged.step event
    constructor
    · intro accounted
      have inPlace : world.InPlace event := by
        refine Classical.byContradiction fun fails => placed.overtaken fails ?_
        exact (accounted 1).stream
      exact ⟨inPlace, (induction logged' (placed.tells inPlace)).mp fun n => accounted (n + 1)⟩
    · intro ⟨inPlace, later⟩ n
      cases n with
      | zero => exact { logged with stream := tells.stream }
      | succ n => exact (induction logged' (placed.tells inPlace)).mpr later n

theorem start_tells : Audit.Tells start.audit start.slots := ⟨rfl, Or.inl rfl⟩

theorem start_logged : Logged start :=
  ⟨fun _ member => absurd member List.not_mem_nil, fun _ member => absurd member List.not_mem_nil⟩

/-- At every moment of a run the stream is the records emitted, gaps marked, exactly when no
record is emitted past a gap that is not marked yet. -/
theorem emissions_accounted_iff (events : List Event) :
    (∀ n, Accounted (start.run (events.take n))) ↔ start.AllInPlace events :=
  run_accounted_iff start_logged start_tells

/-! ## An agent's record behind a gap -/

theorem flush_down {audit : Audit} (down : audit.link = false) : audit.flush = audit := by
  rw [Audit.flush]
  cases pending : audit.pending with
  | nil =>
    rw [Audit.flushQueue, Audit.flushGap, Audit.trySend_down (by exact down), ← pending]
    exact ite_self _
  | cons front rest => rw [Audit.flushQueue, Audit.trySend_down down, ← pending]

theorem human_down {audit : Audit} (bytes : Bytes) (down : audit.link = false) :
    audit.human bytes = audit.queueHuman bytes := by
  rw [Audit.human, flush_down down, Audit.trySend_down down]
  exact ite_self _

/-- As many human records as the ring holds, with the link down. -/
def waiting (n : Nat) : Audit := ⟨false, List.replicate n (item [0]), 0, [], []⟩

theorem queueHuman_waiting {n : Nat} (room : n < ring) :
    (waiting n).queueHuman [0] = (true, waiting (n + 1)) := by
  have short : ¬ring ≤ (waiting n).pending.length := by
    rw [waiting, List.length_replicate]
    omega
  rw [Audit.queueHuman, if_neg short]
  simp [waiting, List.replicate_succ']

theorem queueHuman_full :
    (waiting ring).queueHuman [0] = (false, { waiting ring with dropped := 1 }) := by
  have full : ring ≤ (waiting ring).pending.length := by
    rw [waiting, List.length_replicate]
  rw [Audit.queueHuman, if_pos full]
  rfl

/-- The hook goes on and the human makes some records. -/
def humans (n : Nat) : List Event := .hook true :: List.replicate n (.human [0] [])

theorem run_humans_succ {n : Nat} :
    start.run (humans (n + 1)) = (start.run (humans n)).step (.human [0] []) := by
  rw [humans, humans, List.replicate_succ', run, run, ← List.cons_append, List.foldl_append]
  rfl

theorem human_step {waits : Audit} (audit : world.audit = waits) (on : world.on = true)
    (down : waits.link = false) (full : waits.takes = []) :
    (world.step (.human [0] [])).audit = (waits.queueHuman [0]).2 ∧
      (world.step (.human [0] [])).on = true := by
  have facing : world.facing [] = waits := by
    rw [World.facing, audit, ← full]
  rw [step, if_pos on, facing, human_down [0] down]
  exact ⟨rfl, on⟩

theorem run_waiting {n : Nat} (room : n ≤ ring) :
    (start.run (humans n)).audit = waiting n ∧ (start.run (humans n)).on = true := by
  induction n with
  | zero => exact ⟨rfl, rfl⟩
  | succ n induction =>
    obtain ⟨audit, on⟩ := induction (by omega)
    have last := human_step audit on rfl rfl
    rw [queueHuman_waiting (by omega)] at last
    rw [run_humans_succ]
    exact last

theorem allInPlace_append {before later : List Event} :
    world.AllInPlace (before ++ later) ↔
      world.AllInPlace before ∧ (world.run before).AllInPlace later := by
  induction before generalizing world with
  | nil => exact ⟨fun holds => ⟨trivial, holds⟩, fun holds => holds.2⟩
  | cons event rest induction =>
    rw [List.cons_append, AllInPlace, AllInPlace, induction, and_assoc]
    rfl

/-- One human record more than the ring holds, then an agent's, with the link down. -/
def behindGap : List Event := humans (ring + 1) ++ [.agent [1] []]

theorem not_accounted_behindGap : ¬∀ n, Accounted (start.run (behindGap.take n)) := by
  rw [run_accounted_iff start_logged start_tells, behindGap, allInPlace_append]
  intro ⟨_, inPlace, _⟩
  obtain ⟨audit, on⟩ := run_waiting (Nat.le_refl ring)
  have last := human_step audit on rfl rfl
  rw [queueHuman_full, ← run_humans_succ] at last
  have clears := inPlace last.2
  rw [World.facing, last.1] at clears
  rcases clears with none | ⟨link, _⟩
  · cases none
  · cases link

end World

end EclipseOS.Abyss.AuditQueue
