import EclipseOS.Foundation.History
import EclipseOS.Foundation.Table

/-! # Outputs

The monitors that are plugged in, the windows on their workspaces, and the windows parked
for monitors that are away. -/

namespace EclipseOS.Abyss

open Foundation

variable {Window : Type}

def COUNT : Nat := 10

/-- The windows of a workspace; those that came from a departed output are not yet placed. -/
structure Workspace (Window : Type) where
  tiled : List Window
  floating : List Window
  minimized : List Window
  pending : List Window
  deriving DecidableEq

namespace Workspace

def empty : Workspace Window := ⟨[], [], [], []⟩

def windows (ws : Workspace Window) : List Window := ws.tiled ++ ws.floating

def allWindows (ws : Workspace Window) : List Window := ws.windows ++ ws.minimized

def held (ws : Workspace Window) : List Window := ws.allWindows ++ ws.pending

/-- Whatever was handed over joins the layout. -/
def adopt (stacking : Bool) (ws : Workspace Window) : Workspace Window :=
  if stacking then { ws with floating := ws.floating ++ ws.pending, pending := [] }
  else { ws with tiled := ws.tiled ++ ws.pending, pending := [] }

def install (w : Window) (floats : Bool) (ws : Workspace Window) : Workspace Window :=
  if floats then { ws with floating := ws.floating ++ [w] }
  else { ws with tiled := ws.tiled ++ [w] }

variable [DecidableEq Window]

/-- The workspace without a window, and whether it was there. -/
def remove (ws : Workspace Window) (w : Window) : Workspace Window × Bool :=
  if w ∈ ws.pending then ({ ws with pending := ws.pending.erase w }, true)
  else if w ∈ ws.minimized then ({ ws with minimized := ws.minimized.erase w }, true)
  else if w ∈ ws.floating then ({ ws with floating := ws.floating.erase w }, true)
  else ({ ws with tiled := ws.tiled.erase w }, w ∈ ws.tiled)

/-- The workspace without any of some windows. -/
def removeAll (ws : Workspace Window) (wins : List Window) : Workspace Window :=
  wins.foldl (fun ws w => (ws.remove w).1) ws

end Workspace

def newSet : List (Workspace Window) := List.replicate COUNT .empty

inductive OutputKind where
  | physical
  | virtual
  deriving DecidableEq

structure OutputEntry (Window : Type) where
  id : Nat
  identity : String
  kind : OutputKind
  enabled : Bool
  workspaces : List (Workspace Window)
  deriving DecidableEq

def OutputEntry.held (e : OutputEntry Window) (slot : Nat) : List Window :=
  (e.workspaces[slot]?.map Workspace.held).getD []

def OutputEntry.onEach (e : OutputEntry Window) (change : Workspace Window → Workspace Window) :
    OutputEntry Window :=
  { e with workspaces := e.workspaces.map change }

structure Outputs (Window : Type) where
  entries : List (OutputEntry Window)
  nextId : Nat
  /-- Windows parked while their output is unplugged, by identity. -/
  stash : Table String (List (List Window))

namespace Outputs

def new : Outputs Window := ⟨[], 1, ∅⟩

def fallbackId (outputs : Outputs Window) : Option Nat :=
  ((outputs.entries.find? fun e => e.enabled ∧ e.kind = .physical).or
    ((outputs.entries.find? (·.enabled)).or outputs.entries.head?)).map (·.id)

def modify (outputs : Outputs Window) (id : Nat)
    (change : List (Workspace Window) → List (Workspace Window)) : Outputs Window :=
  { outputs with
    entries := outputs.entries.map fun e =>
      if e.id = id then { e with workspaces := change e.workspaces } else e }

/-- The windows of the departed workspace `i` go to the workspace `i`, or to the last one. -/
def rehome (windows : List (List Window)) (workspaces : List (Workspace Window)) :
    List (Workspace Window) :=
  let last := workspaces.length - 1
  workspaces.mapIdx fun slot ws =>
    { ws with
      pending := ws.pending ++
        (windows.zipIdx.filter fun (_, i) => min i last = slot).flatMap (·.1) }

/-- An output leaves; its windows are parked under its identity, and handed back. -/
def remove (outputs : Outputs Window) (id : Nat) :
    Option (Outputs Window × List (List Window)) :=
  (outputs.entries.find? (·.id = id)).map fun entry =>
    let windows := entry.workspaces.map Workspace.held
    ({ outputs with
        entries := outputs.entries.eraseP (·.id = id)
        stash := outputs.stash.insert entry.identity windows },
      windows)

/-- An output leaves, and another takes in its windows. -/
def unregister (outputs : Outputs Window) (id : Nat) : Outputs Window :=
  match outputs.remove id with
  | none => outputs
  | some (outputs, windows) =>
    match outputs.fallbackId with
    | none => outputs
    | some fallback => outputs.modify fallback (rehome windows)

variable [DecidableEq Window]

/-- An output comes, with whatever is parked under its identity and still alive. -/
def add (outputs : Outputs Window) (alive : Window → Bool) (identity connector : String)
    (kind : OutputKind) : Outputs Window × Nat :=
  let identity :=
    if outputs.entries.any (·.identity = identity) then identity ++ " (" ++ connector ++ ")"
    else identity
  let parked := ((outputs.stash.lookup identity).getD []).map (·.filter alive)
  let workspaces := newSet.mapIdx fun i (ws : Workspace Window) =>
    { ws with pending := ws.pending ++ (parked[i]?.getD []) }
  -- they were re-homed while the output was away, and are taken back
  let entries := outputs.entries.map (·.onEach (·.removeAll parked.flatten))
  ({ entries := entries ++ [⟨outputs.nextId, identity, kind, true, workspaces⟩]
     nextId := outputs.nextId + 1
     stash := outputs.stash.erase identity },
    outputs.nextId)

def unmapWindow (outputs : Outputs Window) (w : Window) : Outputs Window :=
  { outputs with entries := outputs.entries.map (·.onEach fun ws => (ws.remove w).1) }

end Outputs

/-! ## Monitors and windows that come and go -/

inductive DockOp (Window : Type) where
  | plug (identity connector : String) (kind : OutputKind)
  | unplug (id : Nat)
  | openWindow (w : Window) (id slot : Nat) (floats : Bool)
  | closeWindow (w : Window)
  | arrange (id slot : Nat) (stacking : Bool)
  deriving DecidableEq

/-- The outputs beside the windows that are open. -/
structure Dock (Window : Type) where
  outputs : Outputs Window
  live : List Window

namespace Dock

def start : Dock Window := ⟨.new, []⟩

variable [DecidableEq Window]

def step (dock : Dock Window) : DockOp Window → Dock Window
  | .plug identity connector kind =>
    { dock with outputs := (dock.outputs.add (· ∈ dock.live) identity connector kind).1 }
  | .unplug id => { dock with outputs := dock.outputs.unregister id }
  | .openWindow w id slot floats =>
    { outputs := dock.outputs.modify id (·.modify slot (·.install w floats))
      live := dock.live ++ [w] }
  | .closeWindow w =>
    { outputs := dock.outputs.unmapWindow w
      live := dock.live.filter (· ≠ w) }
  | .arrange id slot stacking =>
    { dock with outputs := dock.outputs.modify id (·.modify slot (·.adopt stacking)) }

def run (ops : List (DockOp Window)) : Dock Window := ops.foldl step start

theorem run_snoc (past : List (DockOp Window)) (op : DockOp Window) :
    run (past ++ [op]) = (run past).step op := by
  rw [run, List.foldl_append]
  rfl

end Dock

end EclipseOS.Abyss
