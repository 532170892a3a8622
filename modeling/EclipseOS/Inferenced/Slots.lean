import EclipseOS.Foundation.Table
import EclipseOS.Foundation.History

/-! # Slots

The session table as the threads of the router share it: requests, closes and the
reaper's sweeps. A step is what one of them does under one lock, or with one flag. -/

namespace EclipseOS.Inferenced.Slots

open Foundation

variable {τ : Type}

/-- A slot, by its task and the order it was made in. -/
abbrev SlotId (τ : Type) := τ × Nat

/-- A process's control, by the slot it was started in and the number of the start. -/
abbrev CtlId (τ : Type) := SlotId τ × Nat

structure Slot (τ : Type) where
  /-- Who holds the session lock. -/
  holder : Option Nat
  /-- Whether there is a session behind it. -/
  session : Bool
  ctl : Option (CtlId τ)
  closed : Bool

def Slot.new : Slot τ := ⟨none, false, none, false⟩

structure Ctl where
  dead : Bool
  /-- Whether its child was put in its place. -/
  stored : Bool
  /-- Whether a process runs that was spawned for it. -/
  running : Bool

def Ctl.new : Ctl := ⟨false, false, false⟩

/-- `Ctl::kill`: ends the child, where it is in its place. -/
def Ctl.kill (ctl : Ctl) : Ctl := ⟨true, false, ctl.running && !ctl.stored⟩

/-- Who closes a slot: a request to, or the reaper with the slots it has yet to visit. -/
inductive Closer (τ : Type) where
  | request
  | reaper (rest : List (SlotId τ))

inductive Pc (τ : Type) where
  | absent
  /-- Looks up the task's slot, for so many times yet. -/
  | lookUp (task : τ) (tries : Nat)
  /-- Waits for the session lock. -/
  | found (tries : Nat) (slot : SlotId τ)
  | locked (tries : Nat) (slot : SlotId τ)
  | closedSeen (tries : Nat) (slot : SlotId τ)
  | retry (tries : Nat) (slot : SlotId τ)
  | plan (slot : SlotId τ)
  | starting (slot : SlotId τ)
  | install (ctl : CtlId τ)
  | preparing (ctl : CtlId τ)
  /-- Has spawned the process, and holds its child. -/
  | spawned (ctl : CtlId τ)
  | stored (ctl : CtlId τ)
  | aborting (ctl : CtlId τ)
  | turn (slot : SlotId τ)
  | leaving (slot : SlotId τ)
  | forgetting (slot : SlotId τ)
  | answered
  | close (task : τ)
  | closing (slot : SlotId τ) (closer : Closer τ)
  | killing (slot : SlotId τ) (closer : Closer τ)
  /-- The close is over; the slot it took off the table, where there was one. -/
  | returned (slot : Option (SlotId τ))
  | sweeping (rest : List (SlotId τ))
  | visiting (slot : SlotId τ) (rest : List (SlotId τ))
  | reaped (slot : SlotId τ) (rest : List (SlotId τ))
  | reapForget (slot : SlotId τ) (rest : List (SlotId τ))

structure State (τ : Type) where
  table : Table τ Nat
  nextSlot : Nat
  slots : SlotId τ → Slot τ
  /-- The number of the next start. -/
  seq : Nat
  ctls : CtlId τ → Ctl
  threads : Nat → Pc τ
  nextThread : Nat

def State.new : State τ := ⟨∅, 0, fun _ => .new, 0, fun _ => .new, fun _ => .absent, 0⟩

namespace State

variable [DecidableEq τ] (state : State τ)

def registered (slot : SlotId τ) : Prop := state.table.lookup slot.1 = some slot.2

instance (slot : SlotId τ) : Decidable (state.registered slot) :=
  inferInstanceAs (Decidable (_ = _))

def set (thread : Nat) (pc : Pc τ) : State τ :=
  { state with threads := Function.update state.threads thread pc }

def onSlot (slot : SlotId τ) (change : Slot τ → Slot τ) : State τ :=
  { state with slots := Function.update state.slots slot (change (state.slots slot)) }

def onCtl (ctl : CtlId τ) (change : Ctl → Ctl) : State τ :=
  { state with ctls := Function.update state.ctls ctl (change (state.ctls ctl)) }

def lock (slot : SlotId τ) (thread : Nat) : State τ :=
  state.onSlot slot fun s => { s with holder := some thread }

def unlock (slot : SlotId τ) : State τ := state.onSlot slot fun s => { s with holder := none }

def kill (ctl : CtlId τ) : State τ := state.onCtl ctl Ctl.kill

/-- `Slot::kill_ctl`, and what `Slot::close` does after its flag: under the control lock. -/
def killCtl (slot : SlotId τ) : State τ :=
  match (state.slots slot).ctl with
  | none => state
  | some ctl => (state.kill ctl).onSlot slot fun s => { s with ctl := none }

/-- The session is dropped and its process killed. -/
def endSession (slot : SlotId τ) : State τ :=
  (state.killCtl slot).onSlot slot fun s => { s with session := false }

/-- `Slot::install` of a slot that is not closed. -/
def install (ctl : CtlId τ) : State τ :=
  (state.killCtl ctl.1).onSlot ctl.1 fun s => { s with ctl := some ctl }

/-- `Inner::forget`. -/
def forget (slot : SlotId τ) : State τ :=
  if state.registered slot then { state with table := state.table.erase slot.1 } else state

/-- A thread does what it does next; `outcome` is how whatever it depends on turns out. -/
def act (maxSessions : Nat) (thread : Nat) (outcome : Bool) : State τ :=
  match state.threads thread with
  | .absent => state
  | .lookUp _ 0 => state.set thread .answered
  | .lookUp task (tries + 1) =>
    match state.table.lookup task with
    | some number => state.set thread (.found tries (task, number))
    | none =>
      if maxSessions ≤ state.table.entries.length then
        state.set thread .answered
      else
        { state with
          table := state.table.insert task state.nextSlot
          nextSlot := state.nextSlot + 1 }.set thread (.found tries (task, state.nextSlot))
  | .found tries slot =>
    if (state.slots slot).holder = none then
      (state.lock slot thread).set thread (.locked tries slot)
    else state
  | .locked tries slot =>
    if (state.slots slot).closed then state.set thread (.closedSeen tries slot)
    else state.set thread (.plan slot)
  | .closedSeen tries slot => (state.unlock slot).set thread (.retry tries slot)
  | .retry tries slot => (state.forget slot).set thread (.lookUp slot.1 tries)
  | .plan slot =>
    if outcome ∧ (state.slots slot).session then state.set thread (.turn slot)
    else (state.endSession slot).set thread (.starting slot)
  | .starting slot =>
    if outcome then
      { state with seq := state.seq + 1 }.set thread (.install (slot, state.seq))
    else state.set thread (.leaving slot)
  | .install ctl =>
    if (state.slots ctl.1).closed then (state.kill ctl).set thread (.leaving ctl.1)
    else (state.install ctl).set thread (.preparing ctl)
  | .preparing ctl =>
    if outcome then
      (state.onCtl ctl fun c => { c with running := true }).set thread (.spawned ctl)
    else state.set thread (.aborting ctl)
  | .spawned ctl =>
    if outcome then
      (state.onCtl ctl fun c => { c with stored := true }).set thread (.stored ctl)
    else
      -- A child without its pipes is killed at once.
      (state.onCtl ctl fun c => { c with running := false }).set thread (.aborting ctl)
  | .stored ctl =>
    if outcome ∧ ¬(state.ctls ctl).dead then
      (state.onSlot ctl.1 fun s => { s with session := true }).set thread (.turn ctl.1)
    else state.set thread (.aborting ctl)
  | .aborting ctl => (state.kill ctl).set thread (.leaving ctl.1)
  | .turn slot =>
    if outcome then state.set thread (.leaving slot)
    else (state.endSession slot).set thread (.leaving slot)
  | .leaving slot =>
    (state.unlock slot).set thread
      (if (state.slots slot).session then .answered else .forgetting slot)
  | .forgetting slot => (state.forget slot).set thread .answered
  | .answered => state
  | .close task =>
    match state.table.lookup task with
    | none => state.set thread (.returned none)
    | some number =>
      { state with table := state.table.erase task }.set thread
        (.closing (task, number) .request)
  | .closing slot closer =>
    (state.onSlot slot fun s => { s with closed := true }).set thread (.killing slot closer)
  | .killing slot .request => (state.killCtl slot).set thread (.returned (some slot))
  | .killing slot (.reaper rest) => (state.killCtl slot).set thread (.reaped slot rest)
  | .returned _ => state
  | .sweeping [] => state.set thread .absent
  | .sweeping (slot :: rest) =>
    -- A busy slot is neither idle nor dead.
    if (state.slots slot).holder = none then
      (state.lock slot thread).set thread (.visiting slot rest)
    else state.set thread (.sweeping rest)
  | .visiting slot rest =>
    if outcome then state.set thread (.closing slot (.reaper rest))
    else (state.unlock slot).set thread (.sweeping rest)
  | .reaped slot rest => (state.unlock slot).set thread (.reapForget slot rest)
  | .reapForget slot rest => (state.forget slot).set thread (.sweeping rest)

def spawn (pc : Pc τ) : State τ :=
  { state with
    threads := Function.update state.threads state.nextThread pc
    nextThread := state.nextThread + 1 }

end State

inductive Move (τ : Type) where
  /-- A request for a completion is let in. -/
  | complete (task : τ)
  | close (task : τ)
  /-- The reaper wakes up. -/
  | sweep
  | act (thread : Nat) (outcome : Bool)
  /-- A process ends by itself. -/
  | exits (ctl : CtlId τ)

variable [DecidableEq τ]

def step (maxSessions : Nat) (state : State τ) : Move τ → State τ
  | .complete task => state.spawn (.lookUp task 3)
  | .close task => state.spawn (.close task)
  | .sweep => state.spawn (.sweeping (state.table.entries.map fun entry => (entry.1, entry.2)))
  | .act thread outcome => state.act maxSessions thread outcome
  | .exits ctl => state.onCtl ctl fun c => { c with running := false }

def run (maxSessions : Nat) (moves : List (Move τ)) : State τ :=
  moves.foldl (step maxSessions) State.new

end EclipseOS.Inferenced.Slots
