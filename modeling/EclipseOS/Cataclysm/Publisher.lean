import EclipseOS.Cataclysm.Text

/-! # The publisher

What the emulator pushes into the terminal's publisher: grid state, command marks and
the pty's echo. -/

namespace EclipseOS.Cataclysm

def MAX_ROWS : Nat := 1024
def MAX_COLS : Nat := 4096
def MAX_BLOCKS : Nat := 64

def MS : Nat := 1000000

def U64_MAX : Nat := 2 ^ 64 - 1

/-- Root `terminal` node id. -/
def ROOT_ID : UInt32 := 1

/-- Screen row `r` is node `SLOT_BASE + r`. -/
def SLOT_BASE : UInt32 := 0x100

/-- First command-block `group` id. -/
def GROUP_BASE : UInt32 := 0x10000

structure Config where
  minIntervalNs : Nat
  boundaryIntervalNs : Nat
  idleNs : Nat
  downgradeGraceNs : Nat
  deriving DecidableEq

def Config.default : Config := ⟨200 * MS, 100 * MS, 100 * MS, 500 * MS⟩

def Config.clamped (cfg : Config) : Config :=
  ⟨max cfg.minIntervalNs Config.default.minIntervalNs,
    max cfg.boundaryIntervalNs Config.default.boundaryIntervalNs,
    max cfg.idleNs Config.default.idleNs,
    max cfg.downgradeGraceNs Config.default.downgradeGraceNs⟩

inductive Phase where
  | prompt
  | input
  | running
  | done
  deriving DecidableEq

structure Block where
  id : UInt32
  start : Nat
  /-- Last absolute line, once closed. -/
  last : Option Nat
  /-- Absolute line and column of the `B` mark. -/
  input : Option (Nat × Nat)
  phase : Phase
  command : List Char
  commandSet : Bool
  commandTruncated : Bool
  exitCode : Option Int
  startedNs : Option Nat
  endedNs : Option Nat
  published : Bool
  pubIsPrompt : Option Bool
  pubCommand : Bool
  pubExit : Bool
  pubStarted : Bool
  pubEnded : Bool
  pubChildren : List UInt32
  deriving DecidableEq

namespace Block

def new (id : UInt32) (start : Nat) : Block :=
  ⟨id, start, none, none, .prompt, [], false, false, none, none, none, false, none, false,
    false, false, false, []⟩

/-- An open block reaches down to the cursor line, not past it. -/
def covers (block : Block) (line cursorLine : Nat) : Bool :=
  block.start ≤ line ∧ line ≤ block.last.getD cursorLine

def isPrompt (block : Block) : Bool := block.phase = .prompt ∨ block.phase = .input

end Block

structure Screen where
  lines : List String
  /-- Absolute line number of row 0. -/
  top : Nat
  deriving DecidableEq

structure Slot where
  pubText : String
  pubCursor : Int
  pubParent : UInt32
  pubIsPrompt : Bool
  deriving DecidableEq

structure Publisher where
  cfg : Config
  rows : Nat
  cols : Nat
  primary : Screen
  alternate : Screen
  alt : Bool
  cursor : Nat × Nat
  echo : Bool
  raised : Bool
  raiseAnnounce : Bool
  echoOnSince : Option Nat
  blocks : List Block
  dead : List Block
  nextGroup : Option UInt32
  rootPublished : Bool
  rootChildren : List UInt32
  slots : List Slot
  pubRows : Nat
  pubCols : Nat
  pubCursor : Option (Nat × Nat)
  pubAlt : Option Bool
  pubEcho : Option Bool
  dirty : Bool
  boundary : Bool
  outputSeen : Bool
  lastPublish : Option Nat
  lastOutput : Nat
  seq : Nat

namespace Publisher

def fitsGrid (rows cols : Nat) : Bool :=
  1 ≤ rows ∧ rows ≤ MAX_ROWS ∧ 1 ≤ cols ∧ cols ≤ MAX_COLS

/-- A publisher for a grid, or nothing where its size is out of range. -/
def new (cfg : Config) (rows cols : Nat) : Option Publisher :=
  if fitsGrid rows cols then
    let screen : Screen := ⟨List.replicate rows "", 0⟩
    some {
      cfg := cfg.clamped, rows := rows, cols := cols, primary := screen, alternate := screen,
      alt := false, cursor := (0, 0), echo := true, raised := false, raiseAnnounce := false,
      echoOnSince := none, blocks := [], dead := [], nextGroup := some GROUP_BASE,
      rootPublished := false, rootChildren := [], slots := [], pubRows := 0, pubCols := 0,
      pubCursor := none, pubAlt := none, pubEcho := none, dirty := true, boundary := true,
      outputSeen := false, lastPublish := none, lastOutput := 0, seq := 0 }
  else none

variable (p : Publisher)

def screen : Screen := if p.alt then p.alternate else p.primary

/-- The publisher with another active screen. -/
def setScreen (screen : Screen) : Publisher :=
  if p.alt then { p with alternate := screen } else { p with primary := screen }

def resizeLines (rows : Nat) (screen : Screen) : Screen :=
  { screen with lines := screen.lines.take rows ++ List.replicate (rows - screen.lines.length) "" }

/-- Grid resized; a size out of range changes nothing. -/
def resize (rows cols : Nat) : Publisher :=
  if ¬fitsGrid rows cols then p
  else if rows = p.rows ∧ cols = p.cols then p
  else
    { p with
      primary := resizeLines rows p.primary
      alternate := resizeLines rows p.alternate
      rows := rows
      cols := cols
      cursor := (min p.cursor.1 (rows - 1), min p.cursor.2 (cols - 1))
      dirty := true
      boundary := true
      outputSeen := true }

/-- Replaces the text of a row on the active screen. -/
def setLine (row : Nat) (utf8 : List Chunk) : Publisher :=
  if p.rows ≤ row then p
  else
    let text := fillSanitized utf8
    let written :=
      if p.screen.lines[row]? ≠ some text then
        { p.setScreen { p.screen with lines := p.screen.lines.set row text } with dirty := true }
      else p
    { written with outputSeen := true }

/-- The top `n` rows of the active screen scrolled away. -/
def scroll (n : Nat) : Publisher :=
  if n = 0 then p
  else
    let n := min n p.rows
    let lines := p.screen.lines.drop n ++ List.replicate n ""
    let scrolled := p.setScreen
      ⟨lines, if p.alt then p.screen.top else p.screen.top + n⟩
    { scrolled with dirty := true, outputSeen := true }

def setCursor (row col : Nat) : Publisher :=
  if p.rows ≤ row ∨ p.cols ≤ col then p
  else if p.cursor ≠ (row, col) then { p with cursor := (row, col), dirty := true }
  else p

def setAltScreen (on : Bool) : Publisher :=
  if p.alt ≠ on then { p with alt := on, dirty := true, boundary := true, outputSeen := true }
  else p

/-- The pty's `ECHO` flag. -/
def setEcho (on : Bool) (now : Nat) : Publisher :=
  if on = false then
    let off := { p with echo := false, echoOnSince := none }
    if ¬p.raised then { off with raised := true, raiseAnnounce := true } else off
  else if ¬p.echo then
    { p with echo := true, echoOnSince := if p.raised then some now else p.echoOnSince }
  else p

/-- The youngest block changed, where there is one that passes. -/
def updateLast (test : Block → Bool) (change : Block → Block) : List Block → List Block
  | [] => []
  | [block] => [if test block then change block else block]
  | block :: rest => block :: updateLast test change rest

/-- What is left above a new prompt, youngest first, and what goes: a block that started
at or below it was overwritten, the one before it ends there. -/
def closeAbove (line : Nat) : List Block → List Block × List Block
  | [] => ([], [])
  | prev :: older =>
    if line ≤ prev.start then
      let (left, gone) := closeAbove line older
      (left, prev :: gone)
    else
      ({ prev with
        last := some (min (prev.last.getD (line - 1)) (line - 1)), phase := .done } :: older, [])

def markPrompt (line : Nat) : Publisher :=
  let p := { p with boundary := true, dirty := true }
  -- A redrawn prompt moves the open one.
  if p.blocks.getLast?.any Block.isPrompt then
    { p with
      blocks := updateLast Block.isPrompt
        (fun b => { b with start := line, input := none, phase := .prompt }) p.blocks }
  else
    match p.nextGroup with
    | none => p
    | some id =>
      let (left, gone) := closeAbove line p.blocks.reverse
      let blocks := left.reverse ++ [Block.new id line]
      let excess := blocks.length - MAX_BLOCKS
      { p with
        nextGroup := if id.toNat + 1 < 2 ^ 32 then some (id + 1) else none
        blocks := blocks.drop excess
        dead := p.dead ++ (gone ++ blocks.take excess).filter (·.published) }

/-- The text between the `B` mark and the cursor, and whether some of it is gone. -/
def commandText (line lb cb : Nat) : List Char × Bool :=
  let top := p.primary.top
  let (first, firstCol) := if lb < top then (top, 0) else (lb, cb)
  let last := max (if p.cursor.2 = 0 ∧ first < line then line - 1 else line) first
  let rows := List.range' first (min last (top + p.rows - 1) + 1 - first)
  let text := rows.flatMap fun l =>
    let text := ((p.primary.lines[l - top]?).getD "").toList
    if l = first then text.drop firstCol else '\n' :: text
  let (kept, cut) := truncateAt (trimEnd isWhitespace text) EXT_VALUE_MAX
  (kept, lb < top || cut)

def markCommand (line now : Nat) : Publisher :=
  let p := if p.blocks.getLast?.any Block.isPrompt then p else p.markPrompt line
  if p.blocks.getLast?.any Block.isPrompt then
    { p with
      blocks := updateLast Block.isPrompt (fun b =>
        let b := { b with phase := .running, startedNs := some now }
        match b.input with
        | none => b
        | some (lb, cb) =>
          let (command, truncated) := p.commandText line lb cb
          { b with command := command, commandSet := true, commandTruncated := truncated })
        p.blocks
      boundary := true
      dirty := true }
  else p

def markEnd (line now : Nat) (rest : List UInt8) : Publisher :=
  let exit := match rest with
    | [] => none
    | _ :: rest => parseI32 (field rest)
  if p.blocks.getLast?.any (·.phase ≠ .done) then
    { p with
      blocks := updateLast (·.phase ≠ .done) (fun b =>
        { b with
          last := some (max (if p.cursor.2 = 0 then line - 1 else line) b.start)
          exitCode := exit
          endedNs := some now
          phase := .done }) p.blocks
      boundary := true
      dirty := true }
  else p

def markInput (line : Nat) : Publisher :=
  if p.blocks.getLast?.any (·.phase = .prompt) then
    { p with
      blocks := updateLast (·.phase = .prompt)
        (fun b => { b with input := some (line, p.cursor.2), phase := .input }) p.blocks
      dirty := true }
  else p

def OSC : List UInt8 := [49, 51, 51, 59]

/-- An OSC 133 payload: unknown or malformed ones are ignored. -/
def osc133 (payload : List UInt8) (now : Nat) : Publisher :=
  match if OSC.isPrefixOf payload then payload.drop OSC.length else payload with
  | [] => p
  | kind :: rest =>
    if ¬(rest = [] ∨ rest.head? = some 59) ∨ p.alt then p
    else
      let line := p.primary.top + p.cursor.1
      if kind = 65 then p.markPrompt line
      else if kind = 66 then p.markInput line
      else if kind = 67 then p.markCommand line now
      else if kind = 68 then p.markEnd line now rest
      else p

end Publisher

end EclipseOS.Cataclysm
