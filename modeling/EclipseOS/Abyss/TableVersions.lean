import EclipseOS.Foundation.History
import EclipseOS.Policyd.PolicyPush
import EclipseOS.PolicyEval.GrantVerify

/-! # The versions of pushed tables

`policyd` stamps every table with its clock or with one past its last stamp, which
it forgets when it stops. The compositor outlives it, and takes a table only past the
live one. -/

namespace EclipseOS.PolicyEval

open Foundation

/-- Prefixed to the table bytes before signing. -/
def signingContext : Bytes := (Cbor.utf8 "eclipse-enforcement-table-v1") ++ [0]

namespace Table

def sign [Ed25519] (key : Ed25519.SigningKey) (bytes : Bytes) : Cbor.FixedBytes 64 :=
  Ed25519.sign key (signingContext ++ bytes)

def verify [SignatureCheck] (key : Cbor.FixedBytes 32) (bytes : Bytes)
    (sig : Cbor.FixedBytes 64) : Bool :=
  SignatureCheck.verifies key (signingContext ++ bytes) sig

end Table

end EclipseOS.PolicyEval

namespace EclipseOS.Policyd

open Foundation PolicyEval

/-- `SystemTime::now()` in milliseconds since the epoch, or `none` when the clock
stands before it. -/
abbrev Clock := Option Nat

def nowMs (clock : Clock) : UInt64 := (clock.map UInt64.ofNat).getD 0

/-- A table message, and the version it was stamped with. -/
structure SignedTable where
  version : UInt64
  table : Bytes
  sig : Cbor.FixedBytes 64
  deriving DecidableEq

structure Push where
  table : Option SignedTable
  version : UInt64
  deriving DecidableEq

/-- `Push::default()`. -/
def Push.new : Push := ⟨none, 0⟩

section Recompile

variable [RegexEngine] [KdlParser] [Ed25519]

/-- Compiles the policy and replaces the pushed table. A failed compile, or a table too
large to send, keeps the previous one. -/
def Push.recompile (push : Push) (key : Ed25519.SigningKey)
    (files : Except CompileError (List (String × String))) (clock : Clock) :
    Push × Option SignedTable :=
  match files.bind compile with
  | .error _ => (push, none)
  | .ok compiled =>
    -- An unchecked addition: past the last stamp it starts again from zero.
    let version := max (nowMs clock) (push.version + 1)
    match pushed (Policyd.table compiled version) with
    | none => (push, none)
    | some bytes =>
      let message := ⟨version, bytes, Table.sign key bytes⟩
      (⟨some message, version⟩, some message)

theorem Push.recompile_cases (push : Push) (key : Ed25519.SigningKey)
    (files : Except CompileError (List (String × String))) (clock : Clock) :
    push.recompile key files clock = (push, none) ∨
      ∃ message compiled, push.recompile key files clock =
          (⟨some message, message.version⟩, some message) ∧
        message.version = max (nowMs clock) (push.version + 1) ∧
        pushed (Policyd.table compiled message.version) = some message.table := by
  unfold recompile
  split
  · exact .inl rfl
  · rename_i compiled _
    dsimp only
    split
    · exact .inl rfl
    · rename_i bytes isPushed
      let message : SignedTable :=
        ⟨max (nowMs clock) (push.version + 1), bytes, Table.sign key bytes⟩
      exact .inr ⟨message, compiled, rfl, rfl, isPushed⟩

end Recompile

end EclipseOS.Policyd

namespace EclipseOS.Abyss.TableVersions

open Foundation PolicyEval Policyd

/-- Why a pushed table was not taken. Each keeps the previous one live. -/
inductive Rejected where
  | noKey
  | signature
  | rollback (live offered : UInt64)
  | malformed (error : TableError)
  deriving DecidableEq

section Versions

variable [RegexEngine] [SignatureCheck]

def accept (key : Option (Cbor.FixedBytes 32)) (live : Option UInt64) (bytes : Bytes)
    (sig : Cbor.FixedBytes 64) : Except Rejected Table :=
  match key with
  | none => .error .noKey
  | some key =>
    if ¬Table.verify key bytes sig then
      .error .signature
    else
      match Table.decode bytes with
      | .error error => .error (.malformed error)
      | .ok table =>
        match live with
        | none => .ok table
        | some live =>
          if table.version ≤ live then .error (.rollback live table.version)
          else .ok table

theorem accept_ne_rollback {key : Option (Cbor.FixedBytes 32)} {live : Option UInt64}
    {bytes : Bytes} {sig : Cbor.FixedBytes 64}
    (ahead : ∀ table, Table.decode bytes = .ok table →
      ∀ version ∈ live, version < table.version)
    (old offered : UInt64) : accept key live bytes sig ≠ .error (.rollback old offered) := by
  intro refused
  unfold accept at refused
  split at refused
  · cases refused
  split at refused
  · cases refused
  split at refused
  · cases refused
  · rename_i table decoded
    split at refused
    · cases refused
    · split at refused
      · rename_i live stale
        have past := ahead table decoded live rfl
        exact absurd past (UInt64.not_lt.mpr stale)
      · cases refused

theorem decode_of_accept {key : Option (Cbor.FixedBytes 32)} {live : Option UInt64}
    {bytes : Bytes} {sig : Cbor.FixedBytes 64} {table : Table}
    (taken : accept key live bytes sig = .ok table) : Table.decode bytes = .ok table := by
  unfold accept at taken
  split at taken
  · cases taken
  split at taken
  · cases taken
  split at taken
  · cases taken
  · rename_i table decoded
    split at taken
    · cases taken
      exact decoded
    · split at taken
      · cases taken
      · cases taken
        exact decoded

/-! ## Runs of both processes -/

section Runs

variable [KdlParser] [Ed25519]

/-- `policyd`'s push state, every table it has ever pushed, latest first, and the
compositor's live table. -/
structure World where
  push : Push
  log : List SignedTable
  live : Option Table

def World.initial : World := ⟨.new, [], none⟩

inductive Event where
  | policydStarts (files : Except CompileError (List (String × String))) (clock : Clock)
  | policyChanges (files : Except CompileError (List (String × String))) (clock : Clock)
  /-- The compositor reads a table pushed before: one it was sent, or the one a new
  connection is given. -/
  | tableArrives (key : Option (Cbor.FixedBytes 32)) (place : Nat)
  | compositorStarts

namespace Event

/-- The push state, sources and clock of the recompile an event makes. A process that
starts has forgotten what it pushed. -/
def recompiles (world : World) :
    Event → Option (Push × Except CompileError (List (String × String)) × Clock)
  | policydStarts files clock => some (.new, files, clock)
  | policyChanges files clock => some (world.push, files, clock)
  | tableArrives _ _ | compositorStarts => none

end Event

namespace World

/-- `receive`. A rejected table leaves the previous one live. -/
def receive (world : World) (key : Option (Cbor.FixedBytes 32)) (message : SignedTable) : World :=
  match accept key (world.live.map (·.version)) message.table message.sig with
  | .ok table => { world with live := some table }
  | .error _ => world

def step (key : Ed25519.SigningKey) (world : World) (event : Event) : World :=
  match event.recompiles world with
  | some (push, files, clock) =>
    let (push, message) := push.recompile key files clock
    { world with push := push, log := message.toList ++ world.log }
  | none =>
    match event with
    | .tableArrives pinned place => (world.log[place]?).elim world (world.receive pinned)
    | .compositorStarts => { world with live := none }
    | _ => world

/-- Whatever the event pushes is past every table pushed before, and the compositor
does not call it stale. -/
def MovesForward (key : Ed25519.SigningKey) (world : World) (event : Event) : Prop :=
  ∀ push files clock, event.recompiles world = some (push, files, clock) →
    ∀ message, (push.recompile key files clock).2 = some message →
      (∀ earlier ∈ world.log, earlier.version < message.version) ∧
      ∀ pinned live offered,
        accept pinned (world.live.map (·.version)) message.table message.sig ≠
          .error (.rollback live offered)

/-- When the event pushes, the clock is past every table pushed before that the process
has not itself pushed or gone beyond, and the last stamp has a successor. -/
def ClockAhead (key : Ed25519.SigningKey) (world : World) (event : Event) : Prop :=
  ∀ push files clock, event.recompiles world = some (push, files, clock) →
    (push.recompile key files clock).2.isSome →
      push.version.toNat + 1 < 2 ^ 64 ∧
      ∀ earlier ∈ world.log, push.version < earlier.version → earlier.version < nowMs clock

variable {key : Ed25519.SigningKey} {world : World} {event : Event}

/-- A table message carries the table it is stamped for. -/
def Stamped (message : SignedTable) : Prop :=
  ∃ compiled, pushed (Policyd.table compiled message.version) = some message.table

/-- What is known of a push state: what it stamped last was pushed. -/
def Knows (push : Push) (log : List SignedTable) : Prop :=
  push.version = 0 ∨ ∃ message ∈ log, message.version = push.version

structure Reachable (world : World) : Prop where
  stamped : ∀ message ∈ world.log, Stamped message
  knows : Knows world.push world.log
  live : ∀ table ∈ world.live, ∃ message ∈ world.log, message.version = table.version

omit [KdlParser] [Ed25519] [SignatureCheck] in
theorem Stamped.version_eq {message : SignedTable} {table : Table} (stamped : Stamped message)
    (decoded : Table.decode message.table = .ok table) : message.version = table.version := by
  obtain ⟨compiled, isPushed⟩ := stamped
  obtain ⟨encoded, short⟩ := pushed_eq_some isPushed
  rw [encoded] at decoded
  rw [((Table.decode_encode_eq_ok short).mp decoded).1]
  rfl

omit [SignatureCheck] [KdlParser] [Ed25519] in
theorem reachable_initial : World.initial.Reachable where
  stamped := by simp [World.initial]
  knows := .inl rfl
  live := by simp [World.initial]

omit [SignatureCheck] [KdlParser] [Ed25519] in
/-- The push state of a recompile has stamped nothing, or what it stamped last was
pushed. -/
theorem Reachable.recompiles (reachable : world.Reachable) {push : Push}
    {files : Except CompileError (List (String × String))} {clock : Clock}
    (recompiles : event.recompiles world = some (push, files, clock)) :
    Knows push world.log := by
  cases event with
  | policydStarts => cases recompiles; exact .inl rfl
  | policyChanges => cases recompiles; exact reachable.knows
  | tableArrives | compositorStarts => cases recompiles

omit [KdlParser] [Ed25519] in
theorem Reachable.receive (reachable : world.Reachable) {pinned : Option (Cbor.FixedBytes 32)}
    {message : SignedTable} (sent : message ∈ world.log) :
    (world.receive pinned message).Reachable := by
  unfold World.receive
  split
  · rename_i table taken
    have version := (reachable.stamped message sent).version_eq (decode_of_accept taken)
    have live : ∀ found ∈ some table,
        ∃ message ∈ world.log, message.version = found.version := by
      intro found isLive
      cases isLive
      exact ⟨message, sent, version⟩
    exact ⟨reachable.stamped, reachable.knows, live⟩
  · exact reachable

theorem Reachable.step (reachable : world.Reachable) (event : Event) :
    (world.step key event).Reachable := by
  unfold World.step
  split
  · rename_i push files clock recompiles
    have knows := reachable.recompiles recompiles
    obtain nothing | ⟨message, compiled, result, version, isPushed⟩ :=
      push.recompile_cases key files clock
    · rw [nothing]
      exact ⟨reachable.stamped, knows, reachable.live⟩
    · rw [result]
      have stamped : ∀ sent ∈ message :: world.log, Stamped sent :=
        List.forall_mem_cons.mpr ⟨⟨compiled, isPushed⟩, reachable.stamped⟩
      have live : ∀ table ∈ world.live,
          ∃ sent ∈ message :: world.log, sent.version = table.version := by
        intro table isLive
        obtain ⟨sent, member, version⟩ := reachable.live table isLive
        exact ⟨sent, List.mem_cons_of_mem _ member, version⟩
      exact ⟨stamped, .inr ⟨message, List.mem_cons_self, rfl⟩, live⟩
  · cases event with
    | policydStarts | policyChanges => exact reachable
    | compositorStarts => exact ⟨reachable.stamped, reachable.knows, by simp⟩
    | tableArrives pinned place =>
      cases found : world.log[place]? with
      | none => simpa [found] using reachable
      | some message =>
        have sent := List.mem_of_getElem? found
        simpa [found] using reachable.receive sent

omit [SignatureCheck] [KdlParser] [Ed25519] [RegexEngine] in
private theorem lt_max_iff {version left right : UInt64} :
    version < max left right ↔ version < left ∨ version < right := by
  have larger : max left right = if left ≤ right then right else left := rfl
  rw [larger]
  split
  · rename_i le
    exact ⟨.inr, fun below => below.elim (UInt64.lt_of_lt_of_le · le) id⟩
  · rename_i gt
    have lt := UInt64.not_le.mp gt
    exact ⟨.inl, fun below => below.elim id (UInt64.lt_trans · lt)⟩

omit [SignatureCheck] [KdlParser] [Ed25519] [RegexEngine] in
/-- A stamp is past every version pushed before exactly when the clock is past those the
process does not know of and its last stamp has a successor. -/
theorem stamp_ahead_iff {push : Push} {log : List SignedTable} (knows : Knows push log)
    (now : UInt64) :
    (∀ earlier ∈ log, earlier.version < max now (push.version + 1)) ↔
      push.version.toNat + 1 < 2 ^ 64 ∧
        ∀ earlier ∈ log, push.version < earlier.version → earlier.version < now := by
  have successor : push.version.toNat + 1 < 2 ^ 64 →
      (push.version + 1).toNat = push.version.toNat + 1 := by
    intro room
    rw [UInt64.toNat_add, UInt64.toNat_one, Nat.mod_eq_of_lt room]
  constructor
  · intro ahead
    have room : push.version.toNat + 1 < 2 ^ 64 := by
      by_contra full
      have last : push.version = 0xffffffffffffffff := by
        apply UInt64.toNat_inj.mp
        have bound := push.version.toNat_lt
        change push.version.toNat = 2 ^ 64 - 1
        omega
      obtain zero | ⟨message, member, version⟩ := knows
      · rw [zero] at last
        exact absurd last (by decide)
      · have past := ahead message member
        rw [version, last] at past
        have bound := (max now (0xffffffffffffffff + 1)).toNat_lt
        rw [UInt64.lt_iff_toNat_lt] at past
        have largest : (0xffffffffffffffff : UInt64).toNat = 2 ^ 64 - 1 := rfl
        omega
    apply And.intro room
    intro earlier member unknown
    obtain past | past := lt_max_iff.mp (ahead earlier member)
    · exact past
    · rw [UInt64.lt_iff_toNat_lt, successor room] at past
      rw [UInt64.lt_iff_toNat_lt] at unknown
      omega
  · intro ⟨room, clock⟩ earlier member
    by_cases known : earlier.version ≤ push.version
    · apply lt_max_iff.mpr
      right
      rw [UInt64.lt_iff_toNat_lt, successor room]
      exact Nat.lt_succ_of_le (UInt64.le_iff_toNat_le.mp known)
    · apply lt_max_iff.mpr
      left
      exact clock earlier member (UInt64.not_le.mp known)

/-- Where the world is reachable, an event's table moves forward exactly when the clock
is ahead. -/
theorem Reachable.movesForward_iff (reachable : world.Reachable) (event : Event) :
    world.MovesForward key event ↔ world.ClockAhead key event := by
  apply forall_congr'; intro push
  apply forall_congr'; intro files
  apply forall_congr'; intro clock
  apply forall_congr'; intro recompiles
  have knows := reachable.recompiles recompiles
  obtain nothing | ⟨message, compiled, result, version, isPushed⟩ :=
    push.recompile_cases key files clock
  · simp [nothing]
  · rw [result, Option.isSome_some, ← stamp_ahead_iff knows, ← version]
    rw [imp_iff_right rfl]
    constructor
    · intro forward
      exact (forward message rfl).1
    · intro ahead sent isSent
      cases isSent
      apply And.intro ahead
      intro pinned old offered
      apply accept_ne_rollback
      intro table decoded live isLive
      obtain ⟨current, isCurrent, rfl⟩ := Option.map_eq_some_iff.mp isLive
      obtain ⟨earlier, member, same⟩ := reachable.live current isCurrent
      have stamped : Stamped message := ⟨compiled, isPushed⟩
      rw [← same, ← stamped.version_eq decoded]
      exact ahead earlier member

/-- In every run of both processes, every table pushed moves forward exactly when the
clock is ahead at every push. -/
theorem pushes_move_forward_iff (key : Ed25519.SigningKey) (events : List Event) :
    Along (World.step key) (World.MovesForward key) .initial events ↔
      Along (World.step key) (World.ClockAhead key) .initial events :=
  along_congr (fun _ event reachable => reachable.step event)
    (fun _ event reachable => reachable.movesForward_iff event) reachable_initial events

end World

end Runs

end Versions

section Sample

local instance : RegexEngine := wordEngine
local instance : Ed25519 := soleKey
local instance : SignatureCheck := soleSignature
local instance : KdlParser := parserOf allowText allowNodes

/-- `policyd` stops and starts again after its clock was set back by a second. -/
def setBack : List Event :=
  [.policydStarts (.ok [("policy.kdl", allowText)]) (some 2000),
    .policydStarts (.ok [("policy.kdl", allowText)]) (some 1000)]

theorem setBack_pushes_backwards :
    ¬Along (World.step ()) (World.MovesForward ()) .initial setBack := by
  have pushedFirst : ((World.step () .initial
      (.policydStarts (.ok [("policy.kdl", allowText)]) (some 2000))).log.map
        (·.version)) = [2000] := by
    decide +kernel
  have pushedNext : (Push.new.recompile () (.ok [("policy.kdl", allowText)]) (some 1000)).2.map
      (·.version) = some 1000 := by
    decide +kernel
  intro forward
  obtain ⟨message, isPushed, version⟩ := Option.map_eq_some_iff.mp pushedNext
  have first : (2000 : UInt64) ∈ [2000] := List.mem_singleton_self _
  rw [← pushedFirst] at first
  obtain ⟨earlier, member, stamp⟩ := List.mem_map.mp first
  have past := (forward.2.1 _ _ _ rfl message isPushed).1 earlier member
  rw [version, stamp] at past
  exact absurd past (by decide)

end Sample

end EclipseOS.Abyss.TableVersions
