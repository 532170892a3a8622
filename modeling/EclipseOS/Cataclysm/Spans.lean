import EclipseOS.Cataclysm.Calls
import EclipseOS.Cataclysm.Shown

/-! # Command blocks

The lines a command block stands on, and what each call does to them: marks open, move and
close blocks, a publish drops what scrolled off, and nothing else touches them. -/

namespace EclipseOS.Cataclysm

/-- Where a block starts, and where it ends once it is closed. -/
structure Span where
  id : UInt32
  start : Nat
  last : Option Nat
  done : Bool
  deriving DecidableEq

def Block.span (b : Block) : Span := ⟨b.id, b.start, b.last, b.phase = .done⟩

def Span.covers (span : Span) (line cursorLine : Nat) : Bool :=
  span.start ≤ line ∧ line ≤ span.last.getD cursorLine

theorem Block.span_core (b : Block) : b.core.span = b.span := rfl

/-- What is left above a new prompt, youngest first. -/
def closeSpans (line : Nat) : List Span → List Span
  | [] => []
  | prev :: older =>
    if line ≤ prev.start then closeSpans line older
    else
      { prev with last := some (min (prev.last.getD (line - 1)) (line - 1)), done := true } ::
        older

theorem closeAbove_spans (line : Nat) : ∀ blocks : List Block,
    (Publisher.closeAbove line blocks).1.map Block.span = closeSpans line (blocks.map Block.span)
  | [] => rfl
  | prev :: older => by
      unfold Publisher.closeAbove
      rw [List.map_cons, closeSpans]
      by_cases below : line ≤ prev.start
      · rw [if_pos below, if_pos (show line ≤ prev.span.start from below)]
        exact closeAbove_spans line older
      · rw [if_neg below, if_neg (show ¬ line ≤ prev.span.start from below)]
        rfl

/-- The kind and the rest of an OSC 133 payload that is not ignored. -/
def oscMark (payload : List UInt8) : Option (UInt8 × List UInt8) :=
  match if Publisher.OSC.isPrefixOf payload then payload.drop Publisher.OSC.length
    else payload with
  | [] => none
  | kind :: rest => if rest = [] ∨ rest.head? = some 59 then some (kind, rest) else none

namespace Publisher

def spans (p : Publisher) : List Span := p.blocks.map Block.span

def atPrompt (p : Publisher) : Bool := p.blocks.getLast?.any Block.isPrompt

/-- The line a call draws a prompt at: a prompt mark, or a command mark without a prompt. -/
def promptLine (p : Publisher) : Call → Option Nat
  | .osc133 payload =>
    match oscMark payload with
    | some (kind, _) =>
      if p.alt = false ∧ (kind = 65 ∨ kind = 67 ∧ p.atPrompt = false) then some p.cursorLine
      else none
    | none => none
  | _ => none

variable {p : Publisher}

theorem osc133_eq (payload : List UInt8) (now : Nat) :
    p.osc133 payload now =
      match oscMark payload with
      | none => p
      | some (kind, rest) =>
        if p.alt then p
        else if kind = 65 then p.markPrompt p.cursorLine
        else if kind = 66 then p.markInput p.cursorLine
        else if kind = 67 then p.markCommand p.cursorLine now
        else if kind = 68 then p.markEnd p.cursorLine now rest
        else p := by
  unfold osc133 oscMark
  generalize (if OSC.isPrefixOf payload then payload.drop OSC.length else payload) = text
  cases text with
  | nil => rfl
  | cons kind rest =>
    by_cases formed : rest = [] ∨ rest.head? = some 59
    · cases alt : p.alt <;> simp [formed, cursorLine]
    · simp [formed]

theorem updateLast_snoc {test : Block → Bool} {change : Block → Block} {b : Block}
    (passes : test b = true) : ∀ older : List Block,
    updateLast test change (older ++ [b]) = older ++ [change b]
  | [] => by simp [updateLast, passes]
  | first :: rest => by
      have later := @updateLast_snoc _ change _ passes rest
      cases rest with
      | nil => simpa [updateLast] using later
      | cons second rest => simpa [updateLast] using later

theorem exists_snoc_of_last {blocks : List Block} {test : Block → Bool}
    (passes : blocks.getLast?.any test = true) :
    ∃ older b, blocks = older ++ [b] ∧ test b = true := by
  cases last : blocks.getLast? with
  | none =>
    rw [last] at passes
    cases passes
  | some b =>
    rw [last] at passes
    obtain ⟨older, rfl⟩ := List.getLast?_eq_some_iff.mp last
    exact ⟨older, b, rfl, passes⟩

theorem spans_snoc {older : List Block} {b : Block} (held : p.blocks = older ++ [b]) :
    p.spans = older.map Block.span ++ [b.span] := by
  rw [spans, held, List.map_append]
  rfl

/-- What a call leaves of the spans, with the line it draws a prompt at. -/
inductive Lays (p : Publisher) (drawn : Option Nat) (left : List Span) : Prop where
  /-- Blocks stay as they are, or go. -/
  | thinned (quiet : drawn = none) (fewer : left.Sublist p.spans)
  /-- The youngest block is closed, at the cursor's line or above it. -/
  | ended (older : List Span) (span : Span) (line : Nat) (quiet : drawn = none)
      (held : p.spans = older ++ [span]) (isOpen : span.done = false) (above : line ≤ p.cursorLine)
      (laid : left = older ++ [{ span with last := some (max line span.start), done := true }])
  /-- The open prompt is drawn again. -/
  | moved (older : List Span) (span : Span) (prompt : p.atPrompt = true)
      (here : drawn = some p.cursorLine) (held : p.spans = older ++ [span])
      (isOpen : span.done = false)
      (laid : left = older ++ [{ span with start := p.cursorLine }])
  | opened (id : UInt32) (excess : Nat) (quiet : p.atPrompt = false)
      (here : drawn = some p.cursorLine)
      (laid : left = ((closeSpans p.cursorLine p.spans.reverse).reverse ++
        [(⟨id, p.cursorLine, none, false⟩ : Span)]).drop excess)
  /-- There is no group left for another block. -/
  | ignored (quiet : p.atPrompt = false) (here : drawn = some p.cursorLine)
      (full : p.nextGroup = none)

theorem isPrompt_span {b : Block} (prompt : b.isPrompt = true) : b.span.done = false := by
  unfold Block.isPrompt at prompt
  unfold Block.span
  cases phase : b.phase <;> simp_all

theorem markPrompt_moved (prompt : p.atPrompt = true) :
    ∃ older b, p.blocks = older ++ [b] ∧ b.isPrompt = true ∧
      (p.markPrompt p.cursorLine).blocks =
        older ++ [{ b with start := p.cursorLine, input := none, phase := .prompt }] := by
  obtain ⟨older, b, held, passes⟩ := exists_snoc_of_last prompt
  refine ⟨older, b, held, passes, ?_⟩
  unfold atPrompt at prompt
  unfold markPrompt
  simp only [prompt, if_true]
  rw [held, updateLast_snoc passes]

theorem markPrompt_opened (quiet : p.atPrompt = false) {id : UInt32}
    (next : p.nextGroup = some id) :
    (p.markPrompt p.cursorLine).blocks =
      let blocks := (closeAbove p.cursorLine p.blocks.reverse).1.reverse ++
        [Block.new id p.cursorLine]
      blocks.drop (blocks.length - MAX_BLOCKS) := by
  unfold atPrompt at quiet
  unfold markPrompt
  simp only [quiet, next]
  rfl

theorem markPrompt_lays (p : Publisher) :
    Lays p (some p.cursorLine) (p.markPrompt p.cursorLine).spans := by
  cases prompt : p.atPrompt with
  | true =>
    obtain ⟨older, b, held, passes, moved⟩ := markPrompt_moved prompt
    refine .moved (older.map Block.span) b.span prompt rfl (spans_snoc held)
      (isPrompt_span passes) ?_
    rw [spans_snoc moved]
    have done := isPrompt_span passes
    unfold Block.span at done ⊢
    simp only at done ⊢
    rw [done]
    rfl
  | false =>
    cases next : p.nextGroup with
    | none => exact .ignored prompt rfl next
    | some id =>
      refine .opened id (((closeAbove p.cursorLine p.blocks.reverse).1.reverse ++
        [Block.new id p.cursorLine]).length - MAX_BLOCKS) prompt rfl ?_
      rw [spans, markPrompt_opened prompt next]
      simp only [List.map_drop, List.map_append, List.map_reverse, closeAbove_spans]
      rfl

theorem updateLast_spans {test : Block → Bool} {change : Block → Block}
    (same : ∀ b, test b = true → (change b).span = b.span) : ∀ blocks : List Block,
    (updateLast test change blocks).map Block.span = blocks.map Block.span
  | [] => rfl
  | [b] => by
      unfold updateLast
      cases passes : test b with
      | true => simp [same b passes]
      | false => simp
  | first :: second :: rest => by
      simp only [updateLast, List.map_cons, updateLast_spans same (second :: rest)]

theorem markInput_spans (line : Nat) : (p.markInput line).spans = p.spans := by
  unfold markInput
  split
  · refine updateLast_spans (fun b prompt => ?_) p.blocks
    have phase : b.phase = .prompt := by simpa using prompt
    simp [Block.span, phase]
  · rfl

theorem started_span {now : Nat} {text : Nat → Nat → List Char × Bool} {b : Block}
    (prompt : b.isPrompt = true) :
    (match b.input with
      | none => { b with phase := .running, startedNs := some now }
      | some (lb, cb) =>
        { b with
          phase := .running
          startedNs := some now
          command := (text lb cb).1
          commandSet := true
          commandTruncated := (text lb cb).2 } : Block).span = b.span := by
  have undone := isPrompt_span prompt
  unfold Block.span at undone ⊢
  simp only at undone
  cases b.input <;> simp [undone]

theorem markCommand_spans (line now : Nat) :
    (p.markCommand line now).spans =
      if p.atPrompt then p.spans else (p.markPrompt line).spans := by
  unfold markCommand
  dsimp only
  generalize before : (if p.blocks.getLast?.any Block.isPrompt = true then p
    else p.markPrompt line) = q
  have reached : q.spans = if p.atPrompt then p.spans else (p.markPrompt line).spans := by
    rw [← before]
    unfold atPrompt
    split <;> rfl
  rw [← reached]
  split
  · unfold spans
    dsimp only
    apply updateLast_spans
    intro b prompt
    exact started_span prompt
  · rfl

theorem markEnd_lays (now : Nat) (rest : List UInt8) :
    Lays p none (p.markEnd p.cursorLine now rest).spans := by
  unfold markEnd
  dsimp only
  split
  · rename_i passes
    obtain ⟨older, b, held, going⟩ := exists_snoc_of_last passes
    have phase : b.phase ≠ .done := by simpa using going
    refine .ended (older.map Block.span) b.span
      (if p.cursor.2 = 0 then p.cursorLine - 1 else p.cursorLine) rfl (spans_snoc held)
      (by simp [Block.span, phase]) (by split <;> omega) ?_
    rw [spans]
    dsimp only
    rw [held, updateLast_snoc going, List.map_append]
    rfl
  · exact .thinned rfl (List.Sublist.refl _)

theorem osc133_lays (payload : List UInt8) (now : Nat) :
    Lays p (p.promptLine (.osc133 payload)) (p.osc133 payload now).spans := by
  have same : Lays p none p.spans := .thinned rfl (List.Sublist.refl _)
  have drawn : p.promptLine (.osc133 payload) =
      match oscMark payload with
      | some (kind, _) =>
        if p.alt = false ∧ (kind = 65 ∨ kind = 67 ∧ p.atPrompt = false) then some p.cursorLine
        else none
      | none => none := rfl
  rw [osc133_eq, drawn]
  generalize oscMark payload = mark
  cases mark with
  | none => exact same
  | some mark =>
    obtain ⟨kind, rest⟩ := mark
    cases alt : p.alt with
    | true => simpa [alt] using same
    | false =>
      by_cases isA : kind = 65
      · simpa [isA] using markPrompt_lays p
      by_cases isB : kind = 66
      · simpa [isB, markInput_spans] using same
      by_cases isC : kind = 67
      · cases prompt : p.atPrompt with
        | true => simpa [isC, markCommand_spans, prompt] using same
        | false => simpa [isC, markCommand_spans, prompt] using markPrompt_lays p
      by_cases isD : kind = 68
      · simpa [isD] using markEnd_lays (p := p) now rest
      · simpa [isA, isB, isC, isD] using same

theorem noteOutput_spans (now : Nat) : (p.noteOutput now).spans = p.spans := by
  unfold noteOutput
  split <;> rfl

theorem downgrade_spans : p.downgrade.spans = p.spans := by
  unfold downgrade
  split <;> rfl

theorem publish_spans (now : Nat) : (p.publish now).1.spans.Sublist p.spans := by
  have kept := build_blocks { p with boundary := false, dirty := false }
  have spans_core : ∀ blocks : List Block,
      (blocks.map Block.core).map Block.span = blocks.map Block.span := by
    intro blocks
    rw [List.map_map]
    rfl
  have fewer : (build { p with boundary := false, dirty := false }).1.spans.Sublist p.spans := by
    rw [spans, ← spans_core, kept, spans_core]
    exact List.filter_sublist.map Block.span
  unfold publish
  dsimp only
  generalize build { p with boundary := false, dirty := false } = built at fewer
  split
  · exact fewer
  · exact fewer

theorem poll_spans (now : Nat) : (p.poll now).1.spans.Sublist p.spans := by
  have polled := poll_polled p now
  generalize p.poll now = result at polled
  cases polled with
  | announced announce =>
    have same : ({ p with raiseAnnounce := false } : Publisher).buildRaise.1.blocks = p.blocks :=
      publishRoot_blocks _
    have spans : ({ p with raiseAnnounce := false } : Publisher).buildRaise.1.spans =
        p.spans := congrArg (List.map Block.span) same
    exact spans ▸ List.Sublist.refl _
  | withheld quiet stands =>
    have spans : (p.noteOutput now).spans = p.spans := noteOutput_spans now
    exact spans ▸ List.Sublist.refl _
  | waits quiet fell early =>
    have spans : (p.noteOutput now).downgrade.spans = p.spans :=
      downgrade_spans.trans (noteOutput_spans now)
    exact spans ▸ List.Sublist.refl _
  | published quiet fell due =>
    rw [← (downgrade_spans.trans (noteOutput_spans now) :
      (p.noteOutput now).downgrade.spans = p.spans)]
    exact publish_spans now

theorem call_lays (call : Call) (now : Nat) :
    Lays p (p.promptLine call) (p.call call now).1.spans := by
  have same : ∀ {q : Publisher}, q.blocks = p.blocks → Lays p none q.spans := by
    intro q blocks
    refine .thinned rfl ?_
    rw [spans, blocks]
    exact List.Sublist.refl _
  cases call with
  | resize rows cols =>
    refine same ?_
    simp only [Publisher.call, resize]
    split
    · rfl
    · split <;> rfl
  | setLine row utf8 =>
    refine same ?_
    simp only [Publisher.call, setLine, setScreen]
    split
    · rfl
    · split
      · split <;> rfl
      · rfl
  | scroll n =>
    refine same ?_
    simp only [Publisher.call, scroll, setScreen]
    split
    · rfl
    · split <;> rfl
  | setCursor row col =>
    refine same ?_
    simp only [Publisher.call, setCursor]
    split
    · rfl
    · split <;> rfl
  | setAltScreen on =>
    refine same ?_
    simp only [Publisher.call, setAltScreen]
    split <;> rfl
  | setEcho on =>
    refine same ?_
    simp only [Publisher.call, setEcho]
    split
    · split <;> rfl
    · split <;> rfl
  | osc133 payload => exact osc133_lays payload now
  | poll => exact .thinned rfl (poll_spans now)

end Publisher

end EclipseOS.Cataclysm
