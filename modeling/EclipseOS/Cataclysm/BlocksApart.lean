import Mathlib.Data.List.Pairwise
import EclipseOS.Cataclysm.Spans
import EclipseOS.Cataclysm.Echo

/-! # Blocks apart

Command blocks stand one below the other. A prompt that is drawn closes or discards what is
at its line and below, unless it is the open prompt that is drawn again: that one moves, and
the older blocks stay where they are. -/

namespace EclipseOS.Cataclysm

/-- Spans one below the other, all but the last of them closed. -/
structure Apart (spans : List Span) : Prop where
  apart : spans.Pairwise fun a b => ∃ last, a.last = some last ∧ a.start < b.start ∧ last < b.start
  sound : ∀ span ∈ spans, span.done = span.last.isSome ∧
    ∀ last, span.last = some last → span.start ≤ last

namespace Apart

variable {spans older left : List Span} {span : Span} {line : Nat}

theorem nil : Apart [] := ⟨.nil, by simp⟩

theorem sublist (apart : Apart spans) (fewer : left.Sublist spans) : Apart left :=
  ⟨apart.apart.sublist fewer, fun span member => apart.sound span (fewer.mem member)⟩

theorem snoc (apart : Apart older)
    (above : ∀ a ∈ older, ∃ last, a.last = some last ∧ a.start < span.start ∧ last < span.start)
    (sound : span.done = span.last.isSome ∧ ∀ last, span.last = some last → span.start ≤ last) :
    Apart (older ++ [span]) where
  apart := by
    refine List.pairwise_append.mpr ⟨apart.apart, List.pairwise_singleton _ _, ?_⟩
    intro a member b here
    rw [List.mem_singleton.mp here]
    exact above a member
  sound := by
    intro other member
    rcases List.mem_append.mp member with old | here
    · exact apart.sound other old
    · rw [List.mem_singleton.mp here]
      exact sound

theorem above (apart : Apart (older ++ [span])) : ∀ a ∈ older,
    ∃ last, a.last = some last ∧ a.start < span.start ∧ last < span.start :=
  fun a member =>
    (List.pairwise_append.mp apart.apart).2.2 a member span (List.mem_singleton_self _)

theorem left_of_snoc (apart : Apart (older ++ [span])) : Apart older :=
  apart.sublist (List.sublist_append_left older [span])

theorem last (apart : Apart (older ++ [span])) :
    span.done = span.last.isSome ∧ ∀ last, span.last = some last → span.start ≤ last :=
  apart.sound span (List.mem_append_right older (List.mem_singleton_self _))

end Apart

/-- A prompt's line closes the youngest block above it, and discards those at it and below. -/
theorem closeSpans_snoc (line : Nat) (older : List Span) (prev : Span) :
    (closeSpans line (older ++ [prev]).reverse).reverse =
      if line ≤ prev.start then (closeSpans line older.reverse).reverse
      else older ++
        [{ prev with
            last := some (min (prev.last.getD (line - 1)) (line - 1)), done := true }] := by
  rw [List.reverse_append, List.reverse_singleton, List.singleton_append, closeSpans]
  split
  · rfl
  · simp

structure Above (line : Nat) (spans : List Span) (span : Span) : Prop where
  ended : ∃ last, span.last = some last ∧ span.start < line ∧ last < line
  was : ∃ old ∈ spans, old.id = span.id ∧ old.start = span.start ∧
    ∀ last, span.last = some last → ∀ oldLast, old.last = some oldLast → last ≤ oldLast

theorem closeSpans_apart (line : Nat) (spans : List Span) : Apart spans →
    Apart (closeSpans line spans.reverse).reverse ∧
      ∀ span ∈ (closeSpans line spans.reverse).reverse, Above line spans span := by
  induction spans using List.reverseRecOn with
  | nil =>
    intro _
    exact ⟨Apart.nil, by simp [closeSpans]⟩
  | append_singleton older prev induction =>
    intro apart
    rw [closeSpans_snoc]
    by_cases below : line ≤ prev.start
    · rw [if_pos below]
      obtain ⟨closed, above⟩ := induction apart.left_of_snoc
      refine ⟨closed, fun span member => ?_⟩
      obtain ⟨ended, old, held, facts⟩ := above span member
      exact ⟨ended, old, List.mem_append_left _ held, facts⟩
    · rw [if_neg below]
      have here := apart.last
      constructor
      · refine apart.left_of_snoc.snoc apart.above ⟨rfl, ?_⟩
        rintro last ⟨⟩
        cases old : prev.last with
        | none => simp; omega
        | some oldLast =>
          have start := here.2 oldLast old
          simp
          omega
      · intro span member
        rcases List.mem_append.mp member with held | new
        · obtain ⟨last, ends, starts, before⟩ := apart.above span held
          refine ⟨⟨last, ends, by omega, by omega⟩, span, List.mem_append_left _ held, rfl, rfl,
            fun a first b second => ?_⟩
          rw [first] at second
          exact (Option.some.inj second).le
        · obtain rfl := List.mem_singleton.mp new
          refine ⟨⟨_, rfl, by simp; omega, by omega⟩, prev,
            List.mem_append_right _ (List.mem_singleton_self _), rfl, rfl, ?_⟩
          rintro last ⟨⟩ oldLast old
          rw [old]
          exact Nat.min_le_left _ _

namespace Publisher

/-- A call draws no prompt where an older block stands, and has a group left for the block it
opens. -/
def drawsClear (p : Publisher) (call : Call) : Bool :=
  match p.promptLine call with
  | none => true
  | some line =>
    if p.atPrompt then p.blocks.dropLast.all fun b => b.last.all (· < line)
    else p.nextGroup.isSome

/-- A block was open and reached a line at some time, and no prompt was drawn at that line or
above it since. -/
def HadReached (p : Publisher) (past : List (Call × Nat)) (id : UInt32) (line : Nat) : Prop :=
  ∃ before after, past = before ++ after ∧
    (∃ b ∈ (p.after before).blocks, b.id = id ∧ b.last = none ∧
      b.covers line (p.after before).cursorLine = true) ∧
    ∀ between call later drawn, after = between ++ call :: later →
      (p.after (before ++ between)).promptLine call.1 = some drawn → line < drawn

variable {p : Publisher} {past : List (Call × Nat)}

theorem HadReached.snoc {id : UInt32} {line : Nat} (reached : HadReached p past id line)
    {call : Call × Nat}
    (clear : ∀ drawn, (p.after past).promptLine call.1 = some drawn → line < drawn) :
    HadReached p (past ++ [call]) id line := by
  obtain ⟨before, after, rfl, covered, since⟩ := reached
  refine ⟨before, after ++ [call], by simp, covered, fun between other later drawn split => ?_⟩
  rcases List.eq_nil_or_concat later with rfl | ⟨rest, final, rfl⟩
  · obtain ⟨rfl, same⟩ := List.append_inj' split rfl
    obtain rfl := List.head_eq_of_cons_eq same
    exact clear drawn
  · have shorter : after = between ++ other :: rest := by
      rw [List.concat_eq_append, ← List.cons_append, ← List.append_assoc] at split
      exact (List.append_inj' split rfl).1
    exact since between other rest drawn shorter

theorem HadReached.now {span : Span} {line : Nat} (held : span ∈ (p.after past).spans)
    (isOpen : span.last = none) (starts : span.start ≤ line)
    (reaches : line ≤ (p.after past).cursorLine) : HadReached p past span.id line := by
  obtain ⟨b, member, rfl⟩ := List.mem_map.mp held
  refine ⟨past, [], by simp, ⟨b, member, rfl, isOpen, ?_⟩, fun between call later drawn split => ?_⟩
  · have none : b.last = none := isOpen
    have start : b.start ≤ line := starts
    simp [Block.covers, none, start, reaches]
  · exact absurd split (by simp)

/-- Every line of a closed block, and the first one of an open block, was reached. -/
def Traced (p : Publisher) (past : List (Call × Nat)) : Prop :=
  ∀ span ∈ (p.after past).spans,
    (span.last = none → HadReached p past span.id span.start) ∧
      ∀ last, span.last = some last → ∀ line, span.start ≤ line → line ≤ last →
        HadReached p past span.id line

theorem markPrompt_cursorLine (line : Nat) (p : Publisher) :
    (p.markPrompt line).cursorLine = p.cursorLine := by
  unfold markPrompt
  dsimp only
  split
  · rfl
  · split <;> rfl

theorem markCommand_cursorLine (line now : Nat) (p : Publisher) :
    (p.markCommand line now).cursorLine = p.cursorLine := by
  unfold markCommand
  dsimp only
  generalize before : (if p.blocks.getLast?.any Block.isPrompt = true then p
    else p.markPrompt line) = q
  have same : q.cursorLine = p.cursorLine := by
    rw [← before]
    split
    · rfl
    · exact markPrompt_cursorLine line p
  rw [← same]
  split <;> rfl

theorem drawn_cursorLine {call : Call × Nat} {drawn : Nat}
    (draws : p.promptLine call.1 = some drawn) :
    drawn = p.cursorLine ∧ (p.call call.1 call.2).1.cursorLine = p.cursorLine := by
  obtain ⟨call, now⟩ := call
  cases call with
  | osc133 payload =>
    have marked := osc133_eq (p := p) payload now
    simp only [promptLine] at draws
    simp only [Publisher.call, marked]
    generalize oscMark payload = mark at draws ⊢
    cases mark with
    | none => cases draws
    | some mark =>
      obtain ⟨kind, rest⟩ := mark
      dsimp only at draws ⊢
      split at draws
      · rename_i conditions
        refine ⟨(Option.some.inj draws).symm, ?_⟩
        rcases conditions with ⟨primary, isA | ⟨isC, quiet⟩⟩
        · simp [primary, isA, markPrompt_cursorLine]
        · simp [primary, isC, markCommand_cursorLine]
      · cases draws
  | _ => cases draws

theorem above_of_drawsClear {call : Call} {older : List Span} {span : Span}
    (clear : p.drawsClear call = true) (prompt : p.atPrompt = true)
    (here : p.promptLine call = some p.cursorLine) (held : p.spans = older ++ [span])
    (apart : Apart p.spans) :
    ∀ a ∈ older, ∃ last, a.last = some last ∧ a.start < p.cursorLine ∧ last < p.cursorLine := by
  intro a member
  unfold drawsClear at clear
  simp only [here, prompt, if_true, List.all_eq_true] at clear
  rw [held] at apart
  obtain ⟨last, ends, -, -⟩ := apart.above a member
  have before : older = p.blocks.dropLast.map Block.span := by
    have dropped := congrArg List.dropLast held
    rw [spans, List.dropLast_concat, ← List.map_dropLast] at dropped
    exact dropped.symm
  rw [before] at member
  obtain ⟨b, inside, rfl⟩ := List.mem_map.mp member
  have ended := clear b inside
  have lasts : b.last = some last := ends
  rw [lasts] at ended
  have less : last < p.cursorLine := by simpa using ended
  have start := (apart.sound b.span (by
    rw [before]
    exact List.mem_append_left _ member)).2 last ends
  exact ⟨last, ends, by omega, less⟩

theorem traced_step {call : Call × Nat} (apart : Apart (p.after past).spans)
    (traced : Traced p past) (clear : (p.after past).drawsClear call.1 = true) :
    Apart (p.after (past ++ [call])).spans ∧ Traced p (past ++ [call]) := by
  have lays := call_lays (p := p.after past) call.1 call.2
  rw [← after_snoc] at lays
  -- A prompt drawn below a line leaves the line reached.
  have later : ∀ {id : UInt32} {line : Nat}, HadReached p past id line →
      (∀ drawn, (p.after past).promptLine call.1 = some drawn → line < drawn) →
        HadReached p (past ++ [call]) id line := fun reached below => reached.snoc below
  cases lays with
  | thinned quiet fewer =>
    refine ⟨apart.sublist fewer, fun span member => ?_⟩
    have facts := traced span (fewer.mem member)
    have none : ∀ {line drawn : Nat}, (p.after past).promptLine call.1 = some drawn →
        line < drawn := by
      intro line drawn draws
      rw [quiet] at draws
      cases draws
    exact ⟨fun isOpen => later (facts.1 isOpen) fun drawn => none,
      fun last ends line starts within =>
        later (facts.2 last ends line starts within) fun drawn => none⟩
  | ended older span line quiet held isOpen above laid =>
    have none : ∀ {line drawn : Nat}, (p.after past).promptLine call.1 = some drawn →
        line < drawn := by
      intro line drawn draws
      rw [quiet] at draws
      cases draws
    have inside : span ∈ (p.after past).spans := by
      rw [held]
      exact List.mem_append_right _ (List.mem_singleton_self _)
    rw [held] at apart
    have undone : span.last = Option.none := by
      have sound := apart.last.1
      rw [isOpen] at sound
      exact Option.isNone_iff_eq_none.mp (by simpa using sound.symm)
    rw [laid]
    refine ⟨apart.left_of_snoc.snoc apart.above ⟨rfl, ?_⟩, fun other member => ?_⟩
    · rintro last ⟨⟩
      exact Nat.le_max_right _ _
    · rw [laid] at member
      rcases List.mem_append.mp member with old | new
      · have facts := traced other (by
          rw [held]
          exact List.mem_append_left _ old)
        exact ⟨fun isOpen => later (facts.1 isOpen) fun drawn => none,
          fun last ends line starts within =>
            later (facts.2 last ends line starts within) fun drawn => none⟩
      · obtain rfl := List.mem_singleton.mp new
        refine ⟨nofun, ?_⟩
        rintro last ⟨⟩ row starts within
        refine later ?_ fun drawn => none
        rcases Nat.lt_or_ge (p.after past).cursorLine row with beyond | reaches
        · -- Beyond the cursor a block reaches its own first line at most.
          obtain rfl : row = span.start := by
            have bound := Nat.le_max_left line span.start
            rcases Nat.le_total line span.start with low | high
            · rw [Nat.max_eq_right low] at within
              exact Nat.le_antisymm within starts
            · rw [Nat.max_eq_left high] at within
              omega
          exact (traced span inside).1 undone
        · have reached : HadReached p past span.id row :=
            HadReached.now inside undone starts reaches
          exact reached
  | moved older span prompt here held isOpen laid =>
    have drawn := (drawn_cursorLine here).2
    rw [← after_snoc] at drawn
    have above := above_of_drawsClear clear prompt here held apart
    have facts := traced
    rw [held] at apart
    have undone : span.last = Option.none := by
      have sound := apart.last.1
      rw [isOpen] at sound
      exact Option.isNone_iff_eq_none.mp (by simpa using sound.symm)
    rw [laid]
    refine ⟨apart.left_of_snoc.snoc above ⟨by simp [isOpen, undone], by simp [undone]⟩,
      fun other member => ?_⟩
    rw [laid] at member
    rcases List.mem_append.mp member with old | new
    · obtain ⟨last, ends, -, less⟩ := above other old
      have known := facts other (by
        rw [held]
        exact List.mem_append_left _ old)
      refine ⟨fun isOpen => (Option.some_ne_none last (ends.symm.trans isOpen)).elim,
        fun last' ends' line starts within => later (known.2 last' ends' line starts within) ?_⟩
      intro line' draws
      rw [here] at draws
      obtain rfl := Option.some.inj draws
      rw [ends] at ends'
      have same := Option.some.inj ends'
      omega
    · have present : { span with start := (p.after past).cursorLine } ∈
          (p.after (past ++ [call])).spans := by
        rw [laid]
        exact List.mem_append_right _ (List.mem_singleton_self _)
      obtain rfl := List.mem_singleton.mp new
      refine ⟨fun _ => HadReached.now present undone le_rfl drawn.ge, fun last ends => ?_⟩
      exact (Option.some_ne_none last (ends.symm.trans undone)).elim
  | opened id excess quiet here laid =>
    have drawn := (drawn_cursorLine here).2
    rw [← after_snoc] at drawn
    obtain ⟨closed, above⟩ := closeSpans_apart (p.after past).cursorLine _ apart
    have whole := @Apart.snoc _ ⟨id, (p.after past).cursorLine, none, false⟩ closed
        (fun a member => (above a member).ended) ⟨rfl, nofun⟩
    rw [laid]
    refine ⟨whole.sublist (List.drop_sublist _ _), fun span member => ?_⟩
    have present := member
    rw [laid] at member
    rcases List.mem_append.mp (List.mem_of_mem_drop member) with old | new
    · obtain ⟨⟨last, ends, -, less⟩, was, held, same, start, shorter⟩ := above span old
      refine ⟨fun isOpen => (Option.some_ne_none last (ends.symm.trans isOpen)).elim, ?_⟩
      intro last' ends' line starts within
      obtain rfl := Option.some.inj (ends.symm.trans ends')
      rw [← same]
      refine later ?_ ?_
      · have known := traced was held
        cases wasLast : was.last with
        | none =>
          exact HadReached.now held wasLast (by omega) (by omega)
        | some oldLast =>
          exact known.2 oldLast wasLast line (by omega)
            (within.trans (shorter last ends oldLast wasLast))
      · intro line' draws
        rw [here] at draws
        obtain rfl := Option.some.inj draws
        omega
    · obtain rfl := List.mem_singleton.mp new
      exact ⟨fun _ => HadReached.now present rfl le_rfl drawn.ge, nofun⟩
  | ignored quiet here full =>
    unfold drawsClear at clear
    simp [here, quiet, full] at clear

theorem new_spans {cfg : Config} {rows cols : Nat} (start : new cfg rows cols = some p) :
    p.spans = [] := by
  unfold new at start
  split at start
  · obtain rfl := Option.some.inj start
    rfl
  · cases start

theorem traced_run {cfg : Config} {rows cols : Nat} (start : new cfg rows cols = some p)
    (calls : List (Call × Nat)) :
    (∀ before call after, calls = before ++ call :: after →
      (p.after before).drawsClear call.1 = true) →
    Apart (p.after calls).spans ∧ Traced p calls := by
  induction calls using List.reverseRecOn with
  | nil =>
    intro _
    have none : (p.after []).spans = [] := new_spans start
    refine ⟨none ▸ Apart.nil, fun span member => ?_⟩
    rw [none] at member
    cases member
  | append_singleton past call induction =>
    intro clear
    obtain ⟨apart, traced⟩ := induction fun before other after split =>
      clear before other (after ++ [call]) (by rw [split]; simp)
    exact traced_step apart traced (clear past call [] rfl)

/-! ## Row ownership -/

/-- Blocks start one below the other, each but the last ends above the next, a row is in one
of them at most, which owns it, and a row below the cursor is in none that had not reached it
or that a prompt was drawn upon since. -/
structure BlocksApart (p : Publisher) (calls : List (Call × Nat)) : Prop where
  starts : (p.after calls).blocks.Pairwise fun a b => a.start < b.start
  ended : (p.after calls).blocks.Pairwise fun a b => ∃ last, a.last = some last ∧ last < b.start
  once : ∀ line, (p.after calls).blocks.Pairwise fun a b =>
    ¬ (a.covers line (p.after calls).cursorLine = true ∧
      b.covers line (p.after calls).cursorLine = true)
  owner : (p.after calls).alt = false → ∀ b ∈ (p.after calls).blocks, ∀ row,
    b.covers ((p.after calls).primary.top + row) (p.after calls).cursorLine = true →
      (p.after calls).owner row = b.id
  below : ∀ b ∈ (p.after calls).blocks, ∀ line, (p.after calls).cursorLine < line →
    b.covers line (p.after calls).cursorLine = true → HadReached p calls b.id line

end Publisher

end EclipseOS.Cataclysm
