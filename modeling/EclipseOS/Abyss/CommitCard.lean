import EclipseOS.Abyss.Displays
import EclipseOS.Abyss.Drafts
import EclipseOS.Abyss.ShownWhole
import Mathlib.Data.List.DropRight

/-! # The commit card

The card of a commit slot has a fixed size. What does not fit it is to be committed from
the modal card, which shows everything. -/

namespace EclipseOS.Abyss

open Drafts (Kind)

/-! ## Wrapping -/

def maxLines : Nat := 10

/-- The lines broken so far, the line being filled, and its columns. -/
structure Wrapping where
  lines : List (List Char)
  line : List Char
  columns : Nat

namespace Wrapping

/-- The line being filled ends here, unless nothing is on it. -/
def «break» (wrapping : Wrapping) : Wrapping :=
  ⟨if wrapping.line = [] then wrapping.lines else wrapping.lines ++ [wrapping.line], [], 0⟩

/-- Puts a word on the line, or on the next; a word wider than a line is cut. -/
def word (columns : Nat) (wrapping : Wrapping) (word : List Char) : Wrapping :=
  let n := word.length
  if columns < n then
    let pieces := chunks columns word
    let last := pieces.getLastD []
    ⟨wrapping.break.lines ++ pieces.dropLast, last, last.length⟩
  else
    let need := if wrapping.line = [] then n else wrapping.columns + 1 + n
    let wrapping :=
      if columns < need then ⟨wrapping.lines ++ [wrapping.line], [], 0⟩ else wrapping
    let wrapping : Wrapping :=
      if wrapping.line = [] then wrapping
      else { wrapping with line := wrapping.line ++ [' '], columns := wrapping.columns + 1 }
    { wrapping with line := wrapping.line ++ word, columns := wrapping.columns + n }

end Wrapping

/-- Breaks sanitised text into lines of at most `columns` characters, preferring word
boundaries. -/
def wrap (text : List Char) (columns : Nat) : List (List Char) :=
  let columns := max columns 1
  let lines := (text.splitOn '\n').flatMap fun paragraph =>
    let words := (paragraph.splitOn ' ').filter (· ≠ [])
    let wrapping := words.foldl (Wrapping.word columns) ⟨[], [], 0⟩
    wrapping.lines ++ [wrapping.line]
  -- a trailing empty paragraph is an artefact of the split
  (lines.rdropWhile (· = [])).take maxLines

/-! ## The card -/

/-- The pixels a glyph advances, and the pixels of a line. -/
def advance : Nat := 8
def lineHeight : Nat := 20
def glyphHeight : Nat := 16

/-- Card rows. A statement or summary longer than this does not fit. -/
def statementRows : Nat := 4
def couldRows : Nat := 3
def columns : Nat := 56
def pad : Nat := 16
def border : Nat := 2
def controlHeight : Nat := glyphHeight + 14
def phraseHeight : Nat := lineHeight + 14

/-- The card's fixed size. Rows: phrase, package, statement, deadline, summary, a status
line, the commit control. -/
def cardSize : Nat × Nat :=
  let rows := 1 + 1 + statementRows + 1 + couldRows + 1
  (columns * advance + 2 * (pad + border),
    2 * (pad + border) + phraseHeight + rows * lineHeight + 10 + controlHeight)

/-- How the card looks: what changes the raster. -/
inductive Look where
  | previewing
  | armed
  /-- Dimmed, no commit control. -/
  | waiting (why : String)
  | refused (reason : String)
  | pulse
  deriving DecidableEq

/-- Text drawn on the card, from its upper left corner. -/
structure Row where
  x : Nat
  y : Nat
  text : List Char
  deriving DecidableEq

/-- A row ends before the card's right padding. -/
def Row.Inside (row : Row) : Prop :=
  row.x + row.text.length * advance ≤ cardSize.1 - (border + pad)

def deadlineText (ms : UInt64) : String :=
  let minutes := ms / 60000
  match minutes / 60, minutes % 60 with
  | 0, minutes => s!"{minutes} min"
  | hours, 0 => s!"{hours} h"
  | hours, minutes => s!"{hours} h {minutes} min"

/-- The idle card's explanation, wrapped already. -/
def idleCommit : List String :=
  ["Describe the task in the console. This card is drawn",
    "by the system, not the console: it shows exactly what",
    "will run and what it could do, and only Enter on this", "card starts it."]

def idleUnpause : List String :=
  ["This card is drawn by the system, not the console.",
    "Only Enter on this card lets the task act again."]

def refusal (reason : String) : List Char :=
  match reason with
  | "policy_unavailable" => "Can't reach the policy service (ec-policyd)".toList
  | "agentd_unavailable" => "Can't reach the agent service (ec-agentd)".toList
  | "preview_stale" => "The draft changed: check it and press Enter again".toList
  | reason => "Refused: ".toList ++ sanitizeLine reason

def wrapped (text : String) : List (List Char) := wrap (sanitizeLine text) columns

namespace Shown

/-- The shown content fits the card in place. -/
def fits (shown : Shown) : Bool :=
  (wrapped shown.statement).length ≤ statementRows ∧ shown.could.length ≤ couldRows

def who (shown : Shown) : List Char :=
  if shown.packageName = "" then shown.package.toList
  else
    sanitizeLine shown.packageName ++ " (".toList ++ shown.package.toList ++ ", ".toList ++
      shown.publisher.toList ++ ")".toList

/-- How long the task may run, and on whose account. -/
def untilRow (shown : Shown) : List Char :=
  let deadline := "Until: ".toList ++ (deadlineText shown.deadlineMs).toList
  (if shown.account = "" then deadline
    else deadline ++ "   Account: ".toList ++ sanitizeLine shown.account).take columns

def couldRow (line : String) : List Char := ("Could: ".toList ++ sanitizeLine line).take columns

def summaryTop (top : Nat) : Nat := top + lineHeight + statementRows * lineHeight + lineHeight

def rows (shown : Shown) (kind : Kind) (top : Nat) : List Row :=
  let x := border + pad
  let statement := top + lineHeight
  let deadline := statement + statementRows * lineHeight
  let summary := summaryTop top
  [⟨x, top, shown.who⟩] ++
    ((wrapped shown.statement).take statementRows).zipIdx.map
      (fun (line, i) => ⟨x, statement + i * lineHeight, line⟩) ++
    (if kind = .taskCommit then [⟨x, deadline, shown.untilRow⟩] else []) ++
    (if shown.could = [] ∧ kind = .taskCommit then
      [⟨x, summary, "Could: only talk with you".toList⟩] else []) ++
    (shown.could.take couldRows).zipIdx.map
      (fun (line, i) => ⟨x, summary + i * lineHeight, couldRow line⟩) ++
    if shown.untrustedPredecessor then
      [⟨x, summary + couldRows * lineHeight,
        (if shown.resumes = "" then "Continues a task that read untrusted content."
          else "Resumes a session that may hold untrusted content.").toList⟩]
    else []

end Shown

/-- The rows of a card with nothing to show yet, from a height down. -/
def idleRows (kind : Kind) (top : Nat) : List Row :=
  let x := border + pad
  let (head, lines) := match kind with
    | .taskUnpause => ("Let a paused task act again", idleUnpause)
    | .taskCommit => ("Start an agent task", idleCommit)
  ⟨x, top, head.toList⟩ ::
    lines.zipIdx.map fun (line, i) => ⟨x, top + (i + 1) * lineHeight, line.toList⟩

/-- The commit control, or why there is none. -/
def controlRow (look : Look) (kind : Kind) : Row :=
  let x := border + pad
  let y := cardSize.2 - border - pad - controlHeight + (controlHeight - glyphHeight) / 2
  match look with
  | .armed =>
    ⟨x + 16, y + 1,
      (if kind = .taskUnpause then "Enter: let it act again"
        else "Enter: start this task").toList⟩
  | .previewing => ⟨x, y, "Checking with policy...".toList⟩
  | .pulse => ⟨x, y, "Not ready: nothing was sent.".toList⟩
  | .waiting why => ⟨x, y, why.toList⟩
  | .refused reason => ⟨x, y, refusal reason⟩

def cardTop : Nat := border + pad + phraseHeight + 8

/-- The text drawn below the security phrase. -/
def rasterize (look : Look) (shown : Option Shown) (kind : Kind) : List Row :=
  (match shown with
    | some shown => shown.rows kind cardTop
    | none => idleRows kind cardTop) ++ [controlRow look kind]

/-! ## Capability lines -/

/-- The row of a capability line that is not cut. -/
def wholeRow (line : String) : List Char :=
  "Could: ".toList ++ line.toList.filterMap ShownWhole.shown

/-- Every capability line has a row, in its place and inside the card, that says all of it. -/
def Shown.DrawnWhole (shown : Shown) (look : Look) (kind : Kind) : Prop :=
  ∀ i line, shown.could[i]? = some line →
    ∃ row ∈ rasterize look (some shown) kind,
      row.y = summaryTop cardTop + i * lineHeight ∧ row.text = wholeRow line ∧ row.Inside

def couldRoom : Nat := columns - "Could: ".length

theorem length_filterMap_shown (line : String) :
    (line.toList.filterMap ShownWhole.shown).length = drawnCount line := by
  have single : line.toList.filterMap ShownWhole.shown =
      (line.toList.filterMap drawn).map fun char => if char = '\n' then ' ' else char := by
    rw [List.map_filterMap]
    rfl
  rw [single, List.length_map, drawnCount]

theorem couldRow_eq_iff (line : String) :
    Shown.couldRow line = wholeRow line ↔ drawnCount line ≤ couldRoom := by
  have before : "Could: ".toList.length = 7 := by decide
  have room : couldRoom = 49 := by decide
  have wide : columns = 56 := rfl
  have whole : (wholeRow line).length = 7 + drawnCount line := by
    have counted := length_filterMap_shown line
    calc (wholeRow line).length
        = "Could: ".toList.length + (line.toList.filterMap ShownWhole.shown).length :=
          List.length_append
      _ = 7 + drawnCount line := congrArg₂ (· + ·) before counted
  constructor
  · intro same
    have cut : (Shown.couldRow line).length ≤ columns := by
      rw [Shown.couldRow]
      exact List.length_take_le _ _
    rw [same, whole, wide] at cut
    omega
  · intro short
    have most : maxChars = 480 := rfl
    have unclamped : drawnCount line < maxChars := by omega
    rw [Shown.couldRow, ShownWhole.sanitizeLine_eq unclamped]
    apply List.take_of_length_le
    have fits : 7 + drawnCount line ≤ columns := by omega
    rw [← whole] at fits
    exact fits

theorem couldRow_inside (x y : Nat) (line : String) (left : x ≤ border + pad) :
    Row.Inside ⟨x, y, Shown.couldRow line⟩ := by
  have cut : (Shown.couldRow line).length ≤ columns := by
    rw [Shown.couldRow]
    exact List.length_take_le _ _
  have wide : cardSize.1 - (border + pad) = border + pad + columns * advance := by decide
  have step : (Shown.couldRow line).length * advance ≤ columns * advance :=
    Nat.mul_le_mul_right advance cut
  rw [Row.Inside, wide]
  exact Nat.add_le_add left step

section Rows

variable {shown : Shown} {look : Look} {kind : Kind} {line : String} {i : Nat}

theorem couldRow_mem (known : shown.could[i]? = some line) (drawn : i < couldRows) :
    ⟨border + pad, Shown.summaryTop cardTop + i * lineHeight, Shown.couldRow line⟩ ∈
      rasterize look (some shown) kind := by
  have listed : (line, i) ∈ (shown.could.take couldRows).zipIdx := by
    apply List.mem_zipIdx_iff_getElem?.mpr
    rw [List.getElem?_take_of_lt drawn]
    exact known
  have mapped := List.mem_map_of_mem (f := fun (entry : String × Nat) =>
    (⟨border + pad, Shown.summaryTop cardTop + entry.2 * lineHeight,
      Shown.couldRow entry.1⟩ : Row)) listed
  apply List.mem_append_left
  apply List.mem_append_left
  apply List.mem_append_right
  exact mapped

theorem text_of_height (known : shown.could[i]? = some line) (drawn : i < couldRows) {row : Row}
    (member : row ∈ rasterize look (some shown) kind)
    (height : row.y = Shown.summaryTop cardTop + i * lineHeight) :
    row.text = Shown.couldRow line := by
  have summary : Shown.summaryTop cardTop = 180 := rfl
  have tall : lineHeight = 20 := rfl
  have top : cardTop = 60 := rfl
  have rowsOfStatement : statementRows = 4 := rfl
  have rowsOfSummary : couldRows = 3 := rfl
  rw [summary, tall] at height
  rcases List.mem_append.mp member with shownRow | control
  · simp only [Shown.rows, List.mem_append, List.mem_singleton, List.mem_map, Prod.exists]
      at shownRow
    rcases shownRow with ((((who | ⟨words, j, listed, rfl⟩) | deadline) | empty) |
      ⟨could, j, listed, rfl⟩) | predecessor
    · rw [who] at height
      simp only [top] at height
      omega
    · have inside := (List.getElem?_eq_some_iff.mp (List.mem_zipIdx_iff_getElem?.mp listed)).1
      rw [List.length_take] at inside
      simp only [top, tall] at height
      omega
    · split at deadline
      · rw [List.mem_singleton.mp deadline] at height
        simp only [top, tall, rowsOfStatement] at height
        omega
      · cases deadline
    · split at empty
      · rename_i none
        rw [none.1] at known
        cases known
      · cases empty
    · simp only [summary, tall] at height
      have same : j = i := by omega
      have found := List.mem_zipIdx_iff_getElem?.mp listed
      rw [same, List.getElem?_take_of_lt drawn, known] at found
      cases found
      rfl
    · split at predecessor
      · rw [List.mem_singleton.mp predecessor] at height
        simp only [summary, tall, rowsOfSummary] at height
        omega
      · cases predecessor
  · have low : 289 ≤ (controlRow look kind).y := by
      cases look <;> exact Nat.le_of_ble_eq_true rfl
    rw [← List.mem_singleton.mp control] at low
    omega

/-- Of a summary that fits, every capability line is drawn whole exactly when each leaves
room for what stands before it. -/
theorem capabilities_whole_iff (fits : shown.fits = true) :
    shown.DrawnWhole look kind ↔ ∀ line ∈ shown.could, drawnCount line ≤ couldRoom := by
  have few : shown.could.length ≤ couldRows := by
    rw [Shown.fits, decide_eq_true_eq] at fits
    exact fits.2
  have drawn : ∀ {i line}, shown.could[i]? = some line → i < couldRows := fun known =>
    lt_of_lt_of_le (List.getElem?_eq_some_iff.mp known).1 few
  constructor
  · intro whole line member
    obtain ⟨i, known⟩ := List.getElem?_of_mem member
    obtain ⟨row, onCard, height, text, -⟩ := whole i line known
    have same := (text_of_height known (drawn known) onCard height).symm.trans text
    exact (couldRow_eq_iff line).mp same
  · intro short i line known
    have whole := (couldRow_eq_iff line).mpr (short line (List.mem_of_getElem? known))
    refine ⟨_, couldRow_mem known (drawn known), rfl, whole, ?_⟩
    exact couldRow_inside _ _ line le_rfl

end Rows

/-- Two capability lines, the second longer than its row. -/
def longSummary : Shown :=
  { Shown.blank with
    package := "photos"
    statement := "Sort my photos"
    could := ["seat.key app_id:foot", "scene.list app_id:org.example.photos.library.organiser"] }

/-- The card is accepted as fitting, and the end of a capability is not on it. -/
theorem longSummary_cut :
    longSummary.fits = true ∧ ¬longSummary.DrawnWhole .armed .taskCommit := by
  refine ⟨by decide +kernel, ?_⟩
  intro whole
  obtain ⟨row, onCard, height, text, -⟩ := whole 1 _ rfl
  have cut := (text_of_height rfl (by decide) onCard height).symm.trans text
  exact absurd ((couldRow_eq_iff _).mp cut) (by decide)

def shortSummary : Shown :=
  { longSummary with could := ["seat.key app_id:foot"] }

theorem shortSummary_whole : shortSummary.DrawnWhole .armed .taskCommit :=
  (capabilities_whole_iff (by decide +kernel)).mpr (by decide)

end EclipseOS.Abyss
