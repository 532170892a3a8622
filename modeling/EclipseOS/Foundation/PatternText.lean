import Mathlib.Data.List.Forall2
import EclipseOS.Foundation.Pattern

/-! # Patterns as they are written

Groups, alternatives and repetitions, read a character at a time with a stack of
open groups. What closes a group it did not open is a pattern, a parenthesis, and
what the group was put in. -/

namespace EclipseOS.Foundation

/-- `*`, `+` and `?`. -/
inductive Times where
  | any
  | some
  | atMostOne
  deriving DecidableEq

def Times.of (body : Pattern) : Times → Pattern
  | any => .star body
  | some => .seq body (.star body)
  | atMostOne => .alt body .empty

/-- The alternatives of a group that are complete, and the items of the one that is
not, each with the last first. -/
structure Group where
  alternatives : List Pattern
  items : List Pattern

namespace Group

def new : Group := ⟨[], []⟩

def push (group : Group) (item : Pattern) : Group :=
  { group with items := item :: group.items }

def concat (group : Group) : Pattern := group.items.foldl (fun rest item => .seq item rest) .empty

def bar (group : Group) : Group := ⟨group.concat :: group.alternatives, []⟩

def pattern (group : Group) : Pattern :=
  group.alternatives.foldl (fun rest alternative => .alt alternative rest) group.concat

def repeatLast (group : Group) (times : Times) : Option Group :=
  match group.items with
  | [] => none
  | last :: items => some { group with items := times.of last :: items }

end Group

inductive Mode where
  | plain
  /-- After a backslash. -/
  | escaped
  /-- After a parenthesis. -/
  | opened
  /-- After `(?`. -/
  | asked
  /-- After a repetition, which a `?` makes lazy. -/
  | repeated (times : Times)
  deriving DecidableEq

structure PatternParser where
  mode : Mode
  group : Group
  below : List Group

namespace PatternParser

def initial : PatternParser := ⟨.plain, .new, []⟩

def push (parser : PatternParser) (item : Pattern) : PatternParser :=
  ⟨.plain, parser.group.push item, parser.below⟩

def openGroup (parser : PatternParser) : PatternParser :=
  ⟨.plain, .new, parser.group :: parser.below⟩

def closeGroup (parser : PatternParser) : Option PatternParser :=
  match parser.below with
  | [] => none
  | outer :: below => some ⟨.plain, outer.push parser.group.pattern, below⟩

def settle (parser : PatternParser) : Option PatternParser :=
  match parser.mode with
  | .plain => some parser
  | .escaped => none
  | .opened => some parser.openGroup
  | .asked => none
  | .repeated times =>
    (parser.group.repeatLast times).map fun group => ⟨.plain, group, parser.below⟩

/-- A character with nothing before it to complete. -/
def plain (parser : PatternParser) (char : Char) : Option PatternParser :=
  match char with
  | '\\' => some { parser with mode := .escaped }
  | '(' => some { parser with mode := .opened }
  | ')' => parser.closeGroup
  | '|' => some ⟨.plain, parser.group.bar, parser.below⟩
  | '*' => some { parser with mode := .repeated .any }
  | '+' => some { parser with mode := .repeated .some }
  | '?' => some { parser with mode := .repeated .atMostOne }
  | '^' => some (parser.push .start)
  | '$' => some (parser.push .stop)
  | '.' => some (parser.push (.char (· ≠ '\n')))
  -- Classes and counts are no part of this grammar.
  | '[' => none
  | '{' => none
  | char => some (parser.push (.char (· = char)))

variable (escape : Char → Option (Char → Bool))

def read (parser : PatternParser) (char : Char) : Option PatternParser :=
  match parser.mode with
  | .plain => parser.plain char
  | .escaped => (escape char).map fun holds => parser.push (.char holds)
  | .opened =>
    if char = '?' then some { parser with mode := .asked } else parser.openGroup.plain char
  | .asked => if char = ':' then some parser.openGroup else none
  | .repeated _ =>
    parser.settle.bind fun settled =>
      if char = '?' then some settled else settled.plain char

def run (parser : PatternParser) (text : List Char) : Option PatternParser :=
  text.foldlM (read escape) parser

def finish (parser : PatternParser) : Option Pattern :=
  parser.settle.bind fun settled =>
    if settled.below = [] then some settled.group.pattern else none

variable {escape : Char → Option (Char → Bool)}

/-! ## Reading above open groups -/

/-- The same parser with further groups open below it. -/
def above (parser : PatternParser) (rest : List Group) : PatternParser :=
  { parser with below := parser.below ++ rest }

variable {parser after : PatternParser} {char : Char} {rest : List Group}

variable (parser rest) in
theorem settle_above : (parser.above rest).settle = parser.settle.map (·.above rest) := by
  obtain ⟨mode, group, below⟩ := parser
  cases mode with
  | repeated times =>
    cases applied : group.repeatLast times with
    | none => simp [settle, above, applied]
    | some group => simp [settle, above, applied]
  | _ => rfl

theorem plain_above (other : char ≠ ')') :
    (parser.above rest).plain char = (parser.plain char).map (·.above rest) := by
  unfold plain
  split <;> first
    | rfl
    | exact absurd rfl other

theorem plain_close : parser.plain ')' = parser.closeGroup := rfl

theorem finish_eq_some {pattern : Pattern} : parser.finish = some pattern ↔
    ∃ settled, parser.settle = some settled ∧ settled.below = [] ∧
      settled.group.pattern = pattern := by
  rw [finish, Option.bind_eq_some_iff]
  constructor
  · intro ⟨settled, isSettled, found⟩
    obtain ⟨alone, same⟩ := Option.ite_none_right_eq_some.mp found
    exact ⟨settled, isSettled, alone, Option.some.inj same⟩
  · intro ⟨settled, isSettled, alone, same⟩
    exact ⟨settled, isSettled, by rw [if_pos alone, same]⟩

theorem read_close (plain : parser.mode ≠ .escaped) :
    parser.read escape ')' = parser.settle.bind closeGroup := by
  obtain ⟨mode, group, below⟩ := parser
  cases mode with
  | escaped => exact absurd rfl plain
  | repeated times => simp [read, plain_close]
  | _ => rfl

theorem read_above_of_ne (other : char ≠ ')' ∨ parser.mode = .escaped) :
    (parser.above rest).read escape char = (parser.read escape char).map (·.above rest) := by
  have settled := settle_above parser rest
  obtain ⟨mode, group, below⟩ := parser
  cases mode with
  | plain => exact plain_above (other.resolve_right Mode.noConfusion)
  | escaped =>
    simp only [read, above, Option.map_map]
    rfl
  | opened =>
    have opened : ((openGroup ⟨.opened, group, below⟩).above rest).plain char = _ :=
      plain_above (other.resolve_right Mode.noConfusion)
    simp only [read, above]
    split
    · rfl
    · exact opened
  | asked =>
    simp only [read, above]
    split <;> rfl
  | repeated times =>
    have notClosing := other.resolve_right Mode.noConfusion
    simp only [read]
    rw [show (above ⟨.repeated times, group, below⟩ rest).mode = .repeated times from rfl]
    dsimp only
    rw [settled]
    cases settle ⟨.repeated times, group, below⟩ with
    | none => rfl
    | some ready =>
      simp only [Option.map_some, Option.bind_some]
      split
      · rfl
      · exact plain_above notClosing

theorem mode_of_settle (settled : parser.settle = some after) : parser.mode ≠ .escaped := by
  intro escaped
  rw [settle, escaped] at settled
  cases settled

/-- With groups below, a character is read as without them, or it closes a group that
it did not open. -/
theorem read_above {outer : Group} :
    (parser.above (outer :: rest)).read escape char = some after ↔
      (∃ alone, parser.read escape char = some alone ∧ after = alone.above (outer :: rest)) ∨
      (char = ')' ∧ ∃ pattern, parser.finish = some pattern ∧
        after = ⟨.plain, outer.push pattern, rest⟩) := by
  by_cases closing : char = ')' ∧ parser.mode ≠ .escaped
  · obtain ⟨rfl, plain⟩ := closing
    have closes : (parser.above (outer :: rest)).read escape ')' = _ := read_close plain
    rw [read_close plain, closes, settle_above]
    cases isSettled : parser.settle with
    | none => simp [finish, isSettled]
    | some settled =>
      obtain ⟨mode, group, below⟩ := settled
      cases below with
      | nil => simp [finish, isSettled, closeGroup, above, eq_comm]
      | cons inner below => simp [finish, isSettled, closeGroup, above, eq_comm]
  · have other : char ≠ ')' ∨ parser.mode = .escaped := by
      by_cases same : char = ')'
      · exact Or.inr (Classical.not_not.mp fun plain => closing ⟨same, plain⟩)
      · exact Or.inl same
    rw [read_above_of_ne other, Option.map_eq_some_iff]
    constructor
    · rintro ⟨alone, found, same⟩
      exact Or.inl ⟨alone, found, same.symm⟩
    · intro either
      rcases either with ⟨alone, found, same⟩ | ⟨isClosing, pattern, finished, _⟩
      · exact ⟨alone, found, same.symm⟩
      · obtain ⟨settled, isSettled, _⟩ := finish_eq_some.mp finished
        exact absurd ⟨isClosing, mode_of_settle isSettled⟩ closing

theorem not_read_close {pattern : Pattern} (finished : parser.finish = some pattern) :
    parser.read escape ')' = none := by
  obtain ⟨settled, isSettled, alone, _⟩ := finish_eq_some.mp finished
  rw [read_close (mode_of_settle isSettled), isSettled, Option.bind_some, closeGroup, alone]

/-! ## Whole texts -/

variable (escape) in
def parse (text : List Char) : Option Pattern := (initial.run escape text).bind finish

variable {text more : List Char}

theorem run_append :
    parser.run escape (text ++ more) = (parser.run escape text).bind (·.run escape more) := by
  rw [run, List.foldlM_append]
  rfl

theorem run_cons :
    parser.run escape (char :: text) = (parser.read escape char).bind (·.run escape text) := by
  rw [run, List.foldlM_cons]
  rfl

/-- With a group below, a text is read as without it, or a parenthesis in it closes the
group after a whole pattern. -/
theorem run_above {outer : Group} :
    (parser.above (outer :: rest)).run escape text = some after ↔
      (∃ alone, parser.run escape text = some alone ∧ after = alone.above (outer :: rest)) ∨
      (∃ before later pattern, text = before ++ ')' :: later ∧
        (parser.run escape before).bind finish = some pattern ∧
        run escape ⟨.plain, outer.push pattern, rest⟩ later = some after) := by
  induction text generalizing parser with
  | nil =>
    constructor
    · intro same
      exact Or.inl ⟨parser, rfl, (Option.some.inj same).symm⟩
    · intro either
      rcases either with ⟨alone, found, same⟩ | ⟨before, later, _, split, _⟩
      · cases found
        exact congrArg some same.symm
      · cases before <;> cases split
  | cons char text induction =>
    rw [run_cons, Option.bind_eq_some_iff]
    constructor
    · intro ⟨middle, first, others⟩
      rcases read_above.mp first with ⟨alone, found, rfl⟩ | ⟨rfl, pattern, finished, rfl⟩
      · rcases induction.mp others with ⟨last, ran, same⟩ | ⟨before, later, pattern, split,
          finished, ran⟩
        · exact Or.inl ⟨last, by rw [run_cons, found, Option.bind_some, ran], same⟩
        · refine Or.inr ⟨char :: before, later, pattern, by rw [split]; rfl, ?_, ran⟩
          rw [run_cons, found, Option.bind_some, finished]
      · exact Or.inr ⟨[], text, pattern, rfl, finished, others⟩
    · intro either
      rcases either with ⟨alone, ran, same⟩ | ⟨before, later, pattern, split, finished, ran⟩
      · rw [run_cons, Option.bind_eq_some_iff] at ran
        obtain ⟨middle, found, others⟩ := ran
        exact ⟨middle.above (outer :: rest), read_above.mpr (Or.inl ⟨middle, found, rfl⟩),
          induction.mpr (Or.inl ⟨alone, others, same⟩)⟩
      · cases before with
        | nil =>
          cases split
          exact ⟨_, read_above.mpr (Or.inr ⟨rfl, pattern, finished, rfl⟩), ran⟩
        | cons first before =>
          cases split
          rw [run_cons, Option.bind_assoc, Option.bind_eq_some_iff] at finished
          obtain ⟨middle, found, others⟩ := finished
          exact ⟨middle.above (outer :: rest), read_above.mpr (Or.inl ⟨middle, found, rfl⟩),
            induction.mpr (Or.inr ⟨before, later, pattern, rfl, others, ran⟩)⟩

/-! ## What a text does in a group -/

/-- A parser that is alike but for what its groups hold. -/
structure Alike (parser other : PatternParser) : Prop where
  mode : parser.mode = other.mode
  group : parser.group.items = [] ↔ other.group.items = []
  below : List.Forall₂ (fun group other => group.items = [] ↔ other.items = [])
    parser.below other.below

variable {other : PatternParser}

theorem Alike.symm (alike : Alike parser other) : Alike other parser where
  mode := alike.mode.symm
  group := alike.group.symm
  below := List.Forall₂.flip (alike.below.imp fun _ _ => Iff.symm)

theorem settle_alike (alike : Alike parser other) (settled : parser.settle = some after) :
    ∃ ready, other.settle = some ready ∧ Alike after ready := by
  obtain ⟨mode, group, below⟩ := parser
  obtain ⟨otherMode, otherGroup, otherBelow⟩ := other
  obtain ⟨sameMode, items, frames⟩ := alike
  cases sameMode
  cases mode with
  | plain =>
    cases settled
    exact ⟨_, rfl, rfl, items, frames⟩
  | escaped => cases settled
  | opened =>
    cases settled
    exact ⟨_, rfl, rfl, Iff.rfl, .cons items frames⟩
  | asked => cases settled
  | repeated times =>
    obtain ⟨alternatives, held⟩ := group
    obtain ⟨otherAlternatives, otherHeld⟩ := otherGroup
    cases held with
    | nil => cases settled
    | cons last held =>
      cases otherHeld with
      | nil => cases items.mpr rfl
      | cons otherLast otherHeld =>
        cases settled
        exact ⟨_, rfl, rfl, by simp, frames⟩

theorem closeGroup_alike (alike : Alike parser other)
    (closed : parser.closeGroup = some after) :
    ∃ ready, other.closeGroup = some ready ∧ Alike after ready := by
  obtain ⟨mode, group, below⟩ := parser
  obtain ⟨otherMode, otherGroup, otherBelow⟩ := other
  cases alike.below with
  | nil => cases closed
  | cons items frames =>
    cases closed
    exact ⟨_, rfl, rfl, by simp [Group.push], frames⟩

theorem plain_alike (alike : Alike parser other) :
    parser.plain char = some after →
      ∃ ready, other.plain char = some ready ∧ Alike after ready := by
  have pushed (item : Pattern) (found : some (parser.push item) = some after) :
      ∃ ready, some (other.push item) = some ready ∧ Alike after ready := by
    cases found
    exact ⟨_, rfl, rfl, by simp [push, Group.push], alike.below⟩
  have moved (mode : Mode) (found : some { parser with mode := mode } = some after) :
      ∃ ready, some { other with mode := mode } = some ready ∧ Alike after ready := by
    cases found
    exact ⟨_, rfl, rfl, alike.group, alike.below⟩
  unfold plain
  split
  case h_3 => exact closeGroup_alike alike
  case h_4 =>
    intro found
    cases found
    exact ⟨_, rfl, rfl, by simp [Group.bar], alike.below⟩
  all_goals first
    | exact moved _
    | exact pushed _
    | exact nofun

theorem openGroup_alike (alike : Alike parser other) :
    Alike parser.openGroup other.openGroup where
  mode := rfl
  group := Iff.rfl
  below := .cons alike.group alike.below

theorem read_alike (alike : Alike parser other) (found : parser.read escape char = some after) :
    ∃ ready, other.read escape char = some ready ∧ Alike after ready := by
  have settles {settled : PatternParser} (isSettled : parser.settle = some settled) :=
    settle_alike alike isSettled
  obtain ⟨mode, group, below⟩ := parser
  obtain ⟨otherMode, otherGroup, otherBelow⟩ := other
  have sameMode : mode = otherMode := alike.mode
  subst sameMode
  cases mode with
  | plain => exact plain_alike alike found
  | escaped =>
    obtain ⟨holds, isEscape, rfl⟩ := Option.map_eq_some_iff.mp found
    exact ⟨_, Option.map_eq_some_iff.mpr ⟨holds, isEscape, rfl⟩, rfl, by simp [push, Group.push],
      alike.below⟩
  | opened =>
    simp only [read] at found ⊢
    split at found
    · cases found
      rename_i asks
      exact ⟨_, if_pos asks, rfl, alike.group, alike.below⟩
    · rename_i other
      obtain ⟨ready, isReady, alike⟩ := plain_alike (openGroup_alike alike) found
      exact ⟨ready, (if_neg other).trans isReady, alike⟩
  | asked =>
    simp only [read] at found ⊢
    split at found
    · cases found
      rename_i colon
      exact ⟨_, if_pos colon, openGroup_alike alike⟩
    · cases found
  | repeated times =>
    simp only [read, Option.bind_eq_some_iff] at found
    obtain ⟨settled, isSettled, found⟩ := found
    obtain ⟨ready, isReady, alike⟩ := settles isSettled
    simp only [read, isReady, Option.bind_some]
    split at found
    · cases found
      rename_i isLazy
      exact ⟨ready, if_pos isLazy, alike⟩
    · rename_i other
      obtain ⟨next, isNext, alike⟩ := plain_alike alike found
      exact ⟨next, (if_neg other).trans isNext, alike⟩

theorem run_alike (alike : Alike parser other) (ran : parser.run escape text = some after) :
    ∃ ready, other.run escape text = some ready ∧ Alike after ready := by
  induction text generalizing parser other with
  | nil =>
    cases ran
    exact ⟨other, rfl, alike⟩
  | cons char text induction =>
    rw [run_cons, Option.bind_eq_some_iff] at ran
    obtain ⟨middle, found, others⟩ := ran
    obtain ⟨ready, isReady, alike⟩ := read_alike alike found
    obtain ⟨last, ran, alike⟩ := induction alike others
    exact ⟨last, by rw [run_cons, isReady, Option.bind_some, ran], alike⟩

theorem finish_alike (alike : Alike parser other) (finished : parser.finish.isSome) :
    other.finish.isSome := by
  obtain ⟨pattern, finished⟩ := Option.isSome_iff_exists.mp finished
  obtain ⟨settled, isSettled, alone, _⟩ := finish_eq_some.mp finished
  obtain ⟨ready, isReady, alike⟩ := settle_alike alike isSettled
  have below := alike.below
  rw [alone] at below
  have empty : ready.below = [] := List.forall₂_nil_left_iff.mp below
  exact Option.isSome_iff_exists.mpr ⟨_, finish_eq_some.mpr ⟨ready, isReady, empty, rfl⟩⟩

theorem finishes_alike (alike : Alike parser other) :
    ((parser.run escape text).bind finish).isSome ↔
      ((other.run escape text).bind finish).isSome := by
  have once {parser other : PatternParser} (alike : Alike parser other)
      (finished : ((parser.run escape text).bind finish).isSome) :
      ((other.run escape text).bind finish).isSome := by
    cases ran : parser.run escape text with
    | none => simp [ran] at finished
    | some after =>
      rw [ran, Option.bind_some] at finished
      obtain ⟨ready, isReady, alike⟩ := run_alike alike ran
      rw [isReady, Option.bind_some]
      exact finish_alike alike finished
  exact ⟨once alike, once alike.symm⟩

/-! ## A text between anchors -/

theorem finish_above {outer : Group} : (parser.above (outer :: rest)).finish = none := by
  rw [finish, settle_above]
  cases parser.settle with
  | none => rfl
  | some settled => simp [above]

theorem finish_of_plain (plain : parser.mode = .plain) :
    parser.finish = if parser.below = [] then some parser.group.pattern else none := by
  rw [finish, settle, plain]
  rfl

theorem mode_of_read_close (closed : parser.read escape ')' = some after) :
    after.mode = .plain := by
  by_cases escaped : parser.mode = .escaped
  · rw [read, escaped] at closed
    obtain ⟨holds, _, rfl⟩ := Option.map_eq_some_iff.mp closed
    rfl
  · rw [read_close escaped, Option.bind_eq_some_iff] at closed
    obtain ⟨settled, _, closed⟩ := closed
    obtain ⟨mode, group, below⟩ := settled
    cases below with
    | nil => cases closed
    | cons outer below =>
      cases closed
      rfl

theorem finishes_stop :
    ((parser.run escape (text ++ [')', '$'])).bind finish).isSome ↔
      ((parser.run escape (text ++ [')'])).bind finish).isSome := by
  rw [run_append, run_append]
  cases parser.run escape text with
  | none => exact Iff.rfl
  | some middle =>
    rw [Option.bind_some, Option.bind_some, run_cons, run_cons]
    cases closed : middle.read escape ')' with
    | none => exact Iff.rfl
    | some after =>
      have plain := mode_of_read_close closed
      have stopped : run escape after ['$'] = some (after.push .stop) := by
        rw [run_cons, read, plain]
        rfl
      rw [Option.bind_some, Option.bind_some, stopped]
      change (after.push .stop).finish.isSome ↔ after.finish.isSome
      rw [finish_of_plain plain, finish_of_plain rfl]
      by_cases alone : after.below = []
      · simp [push, alone]
      · simp [push, alone]

def anchorLeft : List Char := ['^', '(', '?', ':']

def anchorRight : List Char := [')', '$']

/-- What closes the group between the anchors and leaves another one open. -/
def Escapes (escape : Char → Option (Char → Bool)) (text : List Char) : Prop :=
  ∃ before later, text = before ++ ')' :: later ∧ (parse escape before).isSome ∧
    (parse escape (['(', ')'] ++ later ++ [')'])).isSome

def anchoredGroup : Group := ⟨[], [.start]⟩

theorem run_anchorLeft : initial.run escape anchorLeft = some (initial.above [anchoredGroup]) := by
  rfl

theorem parse_anchored {pattern : Pattern} (parsed : parse escape text = some pattern) :
    parse escape (anchorLeft ++ text ++ anchorRight) =
      some (.seq .start (.seq pattern (.seq .stop .empty))) := by
  have whole : (initial.above [anchoredGroup]).run escape (text ++ anchorRight) =
      some ⟨.plain, ⟨[], [.stop, pattern, .start]⟩, []⟩ :=
    run_above.mpr (Or.inr ⟨text, ['$'], pattern, rfl, parsed, rfl⟩)
  rw [parse, List.append_assoc, run_append, run_anchorLeft, Option.bind_some, whole]
  rfl

theorem Escapes.parse_eq_none (escapes : Escapes escape text) : parse escape text = none := by
  obtain ⟨before, later, rfl, isPattern, _⟩ := escapes
  rw [parse] at isPattern ⊢
  cases ran : initial.run escape before with
  | none => rw [run_append, ran]; rfl
  | some middle =>
    rw [ran, Option.bind_some] at isPattern
    obtain ⟨pattern, finished⟩ := Option.isSome_iff_exists.mp isPattern
    rw [run_append, ran, Option.bind_some, run_cons, not_read_close finished]
    rfl

theorem close_split {before later : List Char}
    (split : text ++ anchorRight = before ++ ')' :: later) :
    text = before ∨ ∃ rest, later = rest ++ anchorRight ∧ text = before ++ ')' :: rest := by
  have right : text ++ anchorRight = text ++ [')'] ++ ['$'] := by simp [anchorRight]
  rcases List.eq_nil_or_concat later with rfl | ⟨middle, last, rfl⟩
  · cases (List.append_inj' (right.symm.trans split) rfl).2
  · have left : before ++ ')' :: middle.concat last = before ++ ')' :: middle ++ [last] := by simp
    obtain ⟨closed, ends⟩ := List.append_inj' (right.symm.trans (split.trans left)) rfl
    cases ends
    rcases List.eq_nil_or_concat middle with rfl | ⟨rest, next, rfl⟩
    · exact Or.inl (List.append_inj' closed rfl).1
    · have shorter : before ++ ')' :: rest.concat next = before ++ ')' :: rest ++ [next] := by simp
      obtain ⟨same, ends⟩ := List.append_inj' (closed.trans shorter) rfl
      cases ends
      exact Or.inr ⟨rest, by simp [anchorRight], same⟩

theorem parse_anchored_isSome :
    (parse escape (anchorLeft ++ text ++ anchorRight)).isSome ↔
      (parse escape text).isSome ∨ Escapes escape text := by
  have alike (pattern : Pattern) : Alike ⟨.plain, anchoredGroup.push pattern, []⟩
      ⟨.plain, Group.new.push .empty, []⟩ := ⟨rfl, by simp [Group.push], .nil⟩
  have follows (pattern : Pattern) (later : List Char) :
      ((run escape ⟨.plain, anchoredGroup.push pattern, []⟩
          (later ++ anchorRight)).bind finish).isSome ↔
        (parse escape (['(', ')'] ++ later ++ [')'])).isSome := by
    have reopened : initial.run escape (['(', ')'] ++ (later ++ [')'])) =
        run escape ⟨.plain, Group.new.push .empty, []⟩ (later ++ [')']) := by
      rw [run_append]
      rfl
    rw [anchorRight, finishes_stop, finishes_alike (alike pattern), parse, List.append_assoc,
      reopened]
  rw [parse, List.append_assoc, run_append, run_anchorLeft, Option.bind_some]
  constructor
  · intro accepted
    obtain ⟨pattern, accepted⟩ := Option.isSome_iff_exists.mp accepted
    obtain ⟨after, ran, finished⟩ := Option.bind_eq_some_iff.mp accepted
    rcases run_above.mp ran with ⟨alone, _, rfl⟩ | ⟨before, later, inner, split, parsed, rest⟩
    · rw [finish_above] at finished
      cases finished
    · rcases close_split split with rfl | ⟨later, rfl, rfl⟩
      · exact Or.inl (Option.isSome_iff_exists.mpr ⟨inner, parsed⟩)
      · refine Or.inr ⟨before, later, rfl, Option.isSome_iff_exists.mpr ⟨inner, parsed⟩, ?_⟩
        rw [← follows inner later, rest, Option.bind_some, finished]
        rfl
  · intro either
    rcases either with isPattern | ⟨before, later, rfl, isPattern, continues⟩
    · obtain ⟨pattern, parsed⟩ := Option.isSome_iff_exists.mp isPattern
      have anchored := parse_anchored parsed
      rw [parse, List.append_assoc, run_append, run_anchorLeft, Option.bind_some] at anchored
      rw [anchored]
      rfl
    · obtain ⟨pattern, parsed⟩ := Option.isSome_iff_exists.mp isPattern
      have finishes := (follows pattern later).mpr continues
      cases ran : run escape ⟨.plain, anchoredGroup.push pattern, []⟩ (later ++ anchorRight) with
      | none => simp [ran] at finishes
      | some after =>
        rw [ran] at finishes
        have whole : (initial.above [anchoredGroup]).run escape
            (before ++ ')' :: later ++ anchorRight) = some after := by
          apply run_above.mpr
          exact Or.inr ⟨before, later ++ anchorRight, pattern, by simp, parsed, ran⟩
        rw [whole]
        exact finishes

end PatternParser

end EclipseOS.Foundation
