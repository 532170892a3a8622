import EclipseOS.Foundation.PatternText
import EclipseOS.PolicyEval.SceneView

/-! # The visibility rule

Lines are alternatives and the clauses of a line hold at once, so more lines show
more and more clauses show less. The ceiling is the one thing a clause can
loosen: a line without a `class:` clause is capped at `public`. -/

namespace EclipseOS.PolicyEval

open Foundation

structure WorkspaceFacts where
  id : UInt64
  human : Bool
  /-- An agent workspace of the principal asking. -/
  own : Bool
  deriving DecidableEq

structure OutputFacts where
  id : UInt64
  name : String
  isVirtual : Bool
  deriving DecidableEq

/-- Everything a scope may ask about one window. -/
structure WindowFacts where
  handle : UInt64
  appId : String
  title : String
  workspace : Option WorkspaceFacts
  output : Option OutputFacts
  «class» : Class
  launchedBySelf : Bool
  /-- Marked `no-agent` by policy. -/
  noAgent : Bool
  deriving DecidableEq

namespace Class

theorem le_rank_min_iff {left right : Class} {bound : Nat} :
    bound ≤ (left.min right).rank ↔ bound ≤ left.rank ∧ bound ≤ right.rank := by
  unfold Class.min
  split <;> omega

theorem le_rank_foldl_min_iff {base : Class} {classes : List Class} {bound : Nat} :
    bound ≤ (classes.foldl Class.min base).rank ↔
      bound ≤ base.rank ∧ ∀ «class» ∈ classes, bound ≤ «class».rank := by
  induction classes generalizing base with
  | nil => simp
  | cons first others induction =>
    rw [List.foldl_cons, induction, le_rank_min_iff, List.forall_mem_cons]
    exact and_assoc

/-- What is within the ceiling is within every clause, and within the default when
there is no clause. -/
theorem le_rank_leastOr_iff {default : Class} {classes : List Class} {bound : Nat} :
    bound ≤ (leastOr default classes).rank ↔
      (∀ «class» ∈ classes, bound ≤ «class».rank) ∧ (classes = [] → bound ≤ default.rank) := by
  cases classes with
  | nil => simp [leastOr]
  | cons first others =>
    rw [leastOr, le_rank_foldl_min_iff, List.forall_mem_cons]
    simp

theorem rank_le_public_iff {«class» : Class} :
    «class».rank ≤ rank .«public» ↔ «class» = .«public» := by
  cases «class» <;> decide

end Class

section Rule

variable [RegexEngine]

namespace Scope

def «matches» (window : WindowFacts) : Scope → Bool
  | .workspace selected =>
    match selected, window.workspace with
    | _, none => false
    | .id id, some place => place.id = id
    | .own, some place => !place.human && place.own
    | .human, some place => place.human
  | .output selected =>
    match selected, window.output with
    | _, none => false
    | .virtual, some screen => screen.isVirtual
    | .physical, some screen => !screen.isVirtual
    | .id id, some screen => screen.name = id ∨ parseU64 id = some screen.id
  | .appId glob => glob.matches window.appId
  | .title source => RegexEngine.isMatch source window.title
  | .handle number => window.handle = number
  | .launchedBySelf required => !required || window.launchedBySelf
  -- `Line.reaches` asks the ceiling.
  | .class _ => true
  | .content => false

/-- The ceiling a clause sets, if it sets one. -/
def ceiling? : Scope → Option Class
  | .class ceiling => some ceiling
  | _ => none

omit [RegexEngine] in
theorem ceiling?_eq_some {scope : Scope} {ceiling : Class} :
    scope.ceiling? = some ceiling ↔ scope = .class ceiling := by
  cases scope <;> simp [ceiling?]

end Scope

namespace Line

def reaches (line : Line) (window : WindowFacts) : Bool :=
  window.class.rank ≤ line.ceiling.rank && line.scopes.all (·.matches window)

end Line

namespace SceneView

/-- The view of capability lines as they are written. -/
def ofLines (lines : List (List String)) : SceneView := ⟨lines.filterMap Line.compile⟩

/-- The lines one capability has in the grants. -/
def linesFor (cap : String) (grants : List Grant) : List (List String) :=
  ((grants.flatMap fun grant => grant.capabilities).filter (·.name = cap)).map (·.scopes)

theorem compileFor_eq (cap : String) (grants : List Grant) :
    compileFor cap grants = ofLines (linesFor cap grants) := by
  rw [compileFor, ofLines, linesFor, List.filterMap_map]
  rfl

def visible (view : SceneView) (window : WindowFacts) : Bool :=
  !window.noAgent && view.lines.any (·.reaches window)

end SceneView

/-! ## What a written line reaches -/

/-- The window meets a clause, read as a bound when it is a `class:` clause. -/
def Scope.Admits (window : WindowFacts) (scope : Scope) : Prop :=
  scope.matches window = true ∧
    ∀ ceiling, scope = .class ceiling → window.class.rank ≤ ceiling.rank

namespace Line

variable {scopes : List String} {window : WindowFacts} {line : Line}

/-- A line with a `class:` clause. -/
def Capped (scopes : List String) : Prop :=
  ∃ clause ∈ scopes, ∃ ceiling, Scope.parse clause = .ok (.class ceiling)

/-- A line as it is written reaches the window. -/
def Shows (window : WindowFacts) (scopes : List String) : Prop :=
  ∃ line, compile scopes = some line ∧ line.reaches window = true

theorem compile_eq_some : compile scopes = some line ↔
    scopes ≠ [] ∧ scopes.mapM Scope.parse = .ok line.scopes ∧
      line.ceiling = Class.leastOr .public (line.scopes.filterMap Scope.ceiling?) := by
  unfold compile
  by_cases empty : scopes = []
  · simp [empty]
  · rw [if_neg empty]
    cases scopes.mapM Scope.parse with
    | error error => simp
    | ok parsed =>
      constructor
      · intro compiled
        cases compiled
        exact ⟨empty, rfl, rfl⟩
      · intro ⟨_, same, ceiling⟩
        cases same
        exact congrArg (fun ceiling => some (Line.mk line.scopes ceiling)) ceiling.symm

theorem ceilings_eq_nil_iff (parsed : scopes.mapM Scope.parse = .ok line.scopes) :
    line.scopes.filterMap Scope.ceiling? = [] ↔ ¬Capped scopes := by
  rw [List.filterMap_eq_nil_iff]
  constructor
  · intro none ⟨clause, member, ceiling, read⟩
    have absent := none _ ((mem_of_mapM_ok parsed).mpr ⟨clause, member, read⟩)
    cases absent
  · intro uncapped scope member
    obtain ⟨clause, among, read⟩ := (mem_of_mapM_ok parsed).mp member
    cases found : Scope.ceiling? scope with
    | none => rfl
    | some ceiling =>
      cases Scope.ceiling?_eq_some.mp found
      exact absurd ⟨clause, among, ceiling, read⟩ uncapped

theorem reaches_iff (compiled : compile scopes = some line) :
    line.reaches window = true ↔
      (∀ scope ∈ line.scopes, scope.Admits window) ∧
      (¬Capped scopes → window.class = .public) := by
  obtain ⟨_, parsed, ceiling⟩ := compile_eq_some.mp compiled
  have within : (∀ ceiling ∈ line.scopes.filterMap Scope.ceiling?,
      window.class.rank ≤ ceiling.rank) ↔
      ∀ scope ∈ line.scopes, ∀ ceiling, scope = .class ceiling →
        window.class.rank ≤ ceiling.rank := by
    simp only [List.mem_filterMap, Scope.ceiling?_eq_some]
    exact ⟨fun within scope member ceiling same => within ceiling ⟨scope, member, same⟩,
      fun within ceiling ⟨scope, member, same⟩ => within scope member ceiling same⟩
  rw [reaches, ceiling, Bool.and_eq_true, decide_eq_true_eq, Class.le_rank_leastOr_iff, within,
    ceilings_eq_nil_iff parsed, Class.rank_le_public_iff, List.all_eq_true]
  simp only [Scope.Admits]
  constructor
  · intro ⟨⟨below, capped⟩, matched⟩
    exact ⟨fun scope member => ⟨matched scope member, below scope member⟩, capped⟩
  · intro ⟨admitted, capped⟩
    exact ⟨⟨fun scope member => (admitted scope member).2, capped⟩,
      fun scope member => (admitted scope member).1⟩

/-- The clauses of a line hold at once, and without a `class:` clause only public
windows are reached. -/
theorem shows_iff : Shows window scopes ↔
    scopes ≠ [] ∧
    (∀ clause ∈ scopes, ∃ scope, Scope.parse clause = .ok scope ∧ scope.Admits window) ∧
    (¬Capped scopes → window.class = .public) := by
  constructor
  · intro ⟨line, compiled, reached⟩
    obtain ⟨notEmpty, parsed, _⟩ := compile_eq_some.mp compiled
    obtain ⟨admitted, capped⟩ := (reaches_iff compiled).mp reached
    refine ⟨notEmpty, fun clause member => ?_, capped⟩
    obtain ⟨scope, read⟩ := exists_mapM_ok_iff.mp ⟨_, parsed⟩ clause member
    have among : scope ∈ line.scopes := (mem_of_mapM_ok parsed).mpr ⟨clause, member, read⟩
    exact ⟨scope, read, admitted scope among⟩
  · intro ⟨notEmpty, each, capped⟩
    obtain ⟨parsed, success⟩ := exists_mapM_ok_iff.mpr fun clause member =>
      (each clause member).imp fun _ => And.left
    have compiled : compile scopes =
        some ⟨parsed, Class.leastOr .public (parsed.filterMap Scope.ceiling?)⟩ :=
      compile_eq_some.mpr ⟨notEmpty, success, rfl⟩
    refine ⟨_, compiled, (reaches_iff compiled).mpr ⟨fun scope member => ?_, capped⟩⟩
    obtain ⟨clause, among, read⟩ := (mem_of_mapM_ok success).mp member
    obtain ⟨other, same, admitted⟩ := each clause among
    cases read.symm.trans same
    exact admitted

end Line

namespace SceneView

variable {lines more : List (List String)} {window : WindowFacts}

theorem visible_ofLines :
    (ofLines lines).visible window = true ↔
      window.noAgent = false ∧ ∃ scopes ∈ lines, Line.Shows window scopes := by
  simp only [visible, ofLines, Bool.and_eq_true, Bool.not_eq_true', List.any_eq_true,
    List.mem_filterMap, Line.Shows]
  constructor
  · intro ⟨agent, line, ⟨scopes, member, compiled⟩, reached⟩
    exact ⟨agent, scopes, member, line, compiled, reached⟩
  · intro ⟨agent, scopes, member, line, compiled, reached⟩
    exact ⟨agent, line, ⟨scopes, member, compiled⟩, reached⟩

theorem visible_mono (subset : lines ⊆ more) (shown : (ofLines lines).visible window = true) :
    (ofLines more).visible window = true := by
  obtain ⟨agent, scopes, member, shows⟩ := visible_ofLines.mp shown
  exact visible_ofLines.mpr ⟨agent, scopes, subset member, shows⟩

theorem not_visible_of_not_shows {scopes : List String} (hidden : ¬Line.Shows window scopes) :
    (ofLines [scopes]).visible window = false := by
  apply Bool.eq_false_iff.mpr
  intro shown
  obtain ⟨_, same, member, shows⟩ := visible_ofLines.mp shown
  cases List.mem_singleton.mp member
  exact hidden shows

omit [RegexEngine] in
theorem linesFor_subset {cap : String} {grants others : List Grant}
    (subset : (grants.flatMap fun grant => grant.capabilities) ⊆
      others.flatMap fun grant => grant.capabilities) :
    linesFor cap grants ⊆ linesFor cap others :=
  List.map_subset _ (List.filter_subset _ subset)

end SceneView

/-- The clause is the first `class:` clause of a line, and lifts its ceiling to the
window's class. -/
def Line.Lifts (window : WindowFacts) (clause : String) (scopes : List String) : Prop :=
  ¬Capped scopes ∧ window.class ≠ .public ∧
    ∃ ceiling, Scope.parse clause = .ok (.class ceiling) ∧ window.class.rank ≤ ceiling.rank

/-- A clause shows no more than the line did without it, where it does not lift the
ceiling. -/
theorem Line.shows_of_clause {window : WindowFacts} {clause : String}
    {before after : List String} (notEmpty : before ++ after ≠ [])
    (shows : Line.Shows window (before ++ clause :: after)) :
    Line.Shows window (before ++ after) ∨ Line.Lifts window clause (before ++ after) := by
  obtain ⟨_, each, capped⟩ := Line.shows_iff.mp shows
  have fewer : ∀ other ∈ before ++ after, other ∈ before ++ clause :: after := by
    intro other member
    simp only [List.mem_append, List.mem_cons] at member ⊢
    exact member.imp_right Or.inr
  have others := fun other member => each other (fewer other member)
  by_cases still : ¬Line.Capped (before ++ after) → window.class = .public
  · exact Or.inl (Line.shows_iff.mpr ⟨notEmpty, others, still⟩)
  · obtain ⟨uncapped, above⟩ := Classical.not_imp.mp still
    have isCapped := Classical.not_not.mp (mt capped above)
    obtain ⟨other, member, ceiling, read⟩ := isCapped
    have same : other = clause := by
      simp only [List.mem_append, List.mem_cons] at member
      by_contra different
      refine uncapped ⟨other, ?_, ceiling, read⟩
      simpa [different] using member
    obtain ⟨scope, again, _, within⟩ := each other (by simp [same])
    cases read.symm.trans again
    exact Or.inr ⟨uncapped, above, ceiling, same ▸ read, within ceiling rfl⟩

namespace SceneView

/-- What is visible grows with the lines and the grants, and shrinks with the clauses of
a line that lift no ceiling; a window marked `no-agent` and one above a line's ceiling
are not visible to it. -/
theorem visible_monotone (window : WindowFacts) :
    (∀ (cap : String) (grants others : List Grant),
      (grants.flatMap fun grant => grant.capabilities) ⊆
        (others.flatMap fun grant => grant.capabilities) →
      (compileFor cap grants).visible window = true →
      (compileFor cap others).visible window = true) ∧
    (∀ lines more : List (List String), lines ⊆ more →
      (ofLines lines).visible window = true → (ofLines more).visible window = true) ∧
    (∀ (above below : List (List String)) (before after : List String) (clause : String),
      before ++ after ≠ [] →
      (ofLines (above ++ (before ++ clause :: after) :: below)).visible window = true →
      (ofLines (above ++ (before ++ after) :: below)).visible window = true ∨
        Line.Lifts window clause (before ++ after)) ∧
    (window.noAgent = true → ∀ view : SceneView, view.visible window = false) ∧
    (∀ (scopes : List String) (line : Line), Line.compile scopes = some line →
      line.ceiling.rank < window.class.rank → (ofLines [scopes]).visible window = false) ∧
    (∀ (scopes : List String) (clause : String) (ceiling : Class), clause ∈ scopes →
      Scope.parse clause = .ok (.class ceiling) → ceiling.rank < window.class.rank →
      (ofLines [scopes]).visible window = false) ∧
    (∀ scopes : List String, ¬Line.Capped scopes → window.class ≠ .public →
      (ofLines [scopes]).visible window = false) := by
  refine ⟨?grants, fun lines more => visible_mono, ?clause, ?marked, ?compiled, ?ceiling,
    ?uncapped⟩
  case grants =>
    intro cap grants others subset shown
    rw [compileFor_eq] at shown ⊢
    exact visible_mono (linesFor_subset subset) shown
  case clause =>
    intro above below before after clause notEmpty shown
    obtain ⟨agent, scopes, member, shows⟩ := visible_ofLines.mp shown
    rcases List.mem_append.mp member with elsewhere | member
    · exact Or.inl (visible_ofLines.mpr
        ⟨agent, scopes, List.mem_append_left _ elsewhere, shows⟩)
    · rcases List.mem_cons.mp member with rfl | elsewhere
      · refine (Line.shows_of_clause notEmpty shows).imp_left fun still => ?_
        exact visible_ofLines.mpr ⟨agent, _, by simp, still⟩
      · exact Or.inl (visible_ofLines.mpr
          ⟨agent, scopes, List.mem_append_right _ (List.mem_cons_of_mem _ elsewhere), shows⟩)
  case marked =>
    intro marked view
    simp [visible, marked]
  case compiled =>
    intro scopes line compiled above
    apply not_visible_of_not_shows
    intro ⟨other, again, reached⟩
    cases compiled.symm.trans again
    rw [Line.reaches, Bool.and_eq_true, decide_eq_true_eq] at reached
    exact absurd reached.1 (Nat.not_le.mpr above)
  case ceiling =>
    intro scopes clause ceiling member read above
    apply not_visible_of_not_shows
    intro shows
    obtain ⟨_, each, _⟩ := Line.shows_iff.mp shows
    obtain ⟨scope, again, _, within⟩ := each clause member
    cases read.symm.trans again
    exact absurd (within ceiling rfl) (Nat.not_le.mpr above)
  case uncapped =>
    intro scopes uncapped above
    apply not_visible_of_not_shows
    intro shows
    obtain ⟨_, _, capped⟩ := Line.shows_iff.mp shows
    exact above (capped uncapped)

end SceneView

end Rule

section Sample

local instance visibleEngine : RegexEngine := wordEngine

def mailWindow : WindowFacts :=
  ⟨7, "mail", "inbox", some ⟨3, false, true⟩, some ⟨1, "DP-1", false⟩, .private, true, false⟩

theorem visible_monotone_mail :
    (SceneView.ofLines [["app_id:foot"], ["handle:7", "class:private"]]).visible mailWindow =
        true ∧
    ((SceneView.ofLines [["handle:7", "class:private"]]).visible mailWindow = true ∨
      Line.Lifts mailWindow "principal:any" ["handle:7", "class:private"]) ∧
    (SceneView.ofLines [["handle:7"]]).visible mailWindow = false ∧
    (SceneView.ofLines [["handle:7", "class:public"]]).visible mailWindow = false := by
  obtain ⟨_, lines, clause, _, compiled, ceiling, _⟩ := SceneView.visible_monotone mailWindow
  refine ⟨?more, ?fewer, ?capped, ?ceiling⟩
  case more =>
    exact lines [["handle:7", "class:private"]] _ (by simp) (by decide +kernel)
  case fewer =>
    exact clause [] [] ["handle:7"] ["class:private"] "principal:any" (by simp)
      (by decide +kernel)
  case capped =>
    exact compiled ["handle:7"] ⟨[.handle 7], .public⟩ (by decide +kernel) (by decide)
  case ceiling =>
    exact ceiling ["handle:7", "class:public"] "class:public" .public (by simp)
      (by decide +kernel) (by decide)

/-- The line is capped at `public` until a clause says more. -/
theorem class_clause_reveals :
    ¬∀ (window : WindowFacts) (line : List String) (clause : String), line ≠ [] →
      (SceneView.ofLines [line ++ [clause]]).visible window = true →
      (SceneView.ofLines [line]).visible window = true := by
  intro never
  have shown : (SceneView.ofLines [["handle:7", "class:private"]]).visible mailWindow = true := by
    decide +kernel
  have hidden : (SceneView.ofLines [["handle:7"]]).visible mailWindow = false := by
    decide +kernel
  have kept := never mailWindow ["handle:7"] "class:private" (by simp) shown
  exact absurd kept (Bool.eq_false_iff.mp hidden)

end Sample

end EclipseOS.PolicyEval

/-! ## Title scopes

A title scope's value is put between anchors before it is compiled. The anchors
hold for a value that is a regex by itself, and not for one that closes the group
it is put in. -/

namespace EclipseOS.PolicyEval

open Foundation PatternParser

/-- The engine as its grammar of groups, alternatives and repetitions, with the
characters an escape stands for. -/
@[reducible] def grammarEngine (escape : Char → Option (Char → Bool)) : RegexEngine where
  compiles _ source := (parse escape source.toList).isSome
  isMatch source text :=
    match parse escape source.toList with
    | some pattern => pattern.search text.toList
    | none => false

/-- A value as a regex by itself matches the whole title. -/
def MatchesWhole (escape : Char → Option (Char → Bool)) (value title : String) : Prop :=
  ∃ pattern, parse escape value.toList = some pattern ∧ pattern.Whole title.toList

/-- A title scope that is parsed reaches the titles its value matches as a whole, and is
refused where its value is no regex. -/
def TitleScoped (escape : Char → Option (Char → Bool)) (value : String) : Prop :=
  letI := grammarEngine escape
  (∀ scope, Scope.parse ("title:" ++ value) = .ok scope →
    ∀ window : WindowFacts, scope.matches window = true →
      MatchesWhole escape value window.title) ∧
  (parse escape value.toList = none →
    ∀ scope, Scope.parse ("title:" ++ value) ≠ .ok scope)

variable {escape : Char → Option (Char → Bool)} {value : String}

theorem anchored_toList :
    (Scope.anchored value).toList = anchorLeft ++ value.toList ++ anchorRight := by
  rw [Scope.anchored, String.toList_append, String.toList_append]
  rfl

theorem Scope.parse_title_eq_ok [RegexEngine] {value : String} {scope : Scope} :
    parse ("title:" ++ value) = .ok scope ↔
      value ≠ "" ∧ RegexEngine.compiles defaultRegexLimit (anchored value) = true ∧
        scope = .title (anchored value) := by
  have split : splitOnce ("title:" ++ value) = _ := @splitOnce_colon "title" value (by decide)
  rw [parse, split]
  by_cases empty : value = ""
  · simp [empty]
  · simp only [if_neg empty]
    split
    · rename_i accepted
      constructor
      · intro parsed
        cases parsed
        exact ⟨empty, accepted, rfl⟩
      · rintro ⟨_, _, same⟩
        rw [same]
    · rename_i refused
      constructor
      · intro parsed
        cases parsed
      · rintro ⟨_, accepted, _⟩
        exact absurd accepted refused

theorem compiles_anchored :
    (grammarEngine escape).compiles defaultRegexLimit (Scope.anchored value) = true ↔
      (parse escape value.toList).isSome ∨ Escapes escape value.toList := by
  rw [← parse_anchored_isSome, ← anchored_toList]
  exact Iff.rfl

theorem matches_title {pattern : Pattern} (parsed : parse escape value.toList = some pattern)
    (window : WindowFacts) :
    letI := grammarEngine escape
    (Scope.title (Scope.anchored value)).matches window = true ↔
      pattern.Whole window.title.toList := by
  have anchored := parse_anchored parsed
  rw [← anchored_toList] at anchored
  simp only [Scope.matches, RegexEngine.isMatch, anchored]
  exact Pattern.search_anchored

/-- Title scopes hold to whole titles for every value but those that close the group
they are put in. -/
theorem titleScoped_iff (escape : Char → Option (Char → Bool)) (value : String) :
    TitleScoped escape value ↔
      ¬∃ before later, value.toList = before ++ ')' :: later ∧
        (parse escape before).isSome ∧
        (parse escape (['(', ')'] ++ later ++ [')'])).isSome := by
  let engine := grammarEngine escape
  constructor
  · intro ⟨_, refused⟩ escapes
    have notPattern := Escapes.parse_eq_none escapes
    have accepted := compiles_anchored.mpr (Or.inr escapes)
    have some : value ≠ "" := by
      intro empty
      obtain ⟨before, later, split, _⟩ := escapes
      rw [empty] at split
      cases before <;> cases split
    exact refused notPattern _ (Scope.parse_title_eq_ok.mpr ⟨some, accepted, rfl⟩)
  · intro closed
    have isPattern {scope : Scope} (parsed : Scope.parse ("title:" ++ value) = .ok scope) :
        scope = .title (Scope.anchored value) ∧ (parse escape value.toList).isSome := by
      obtain ⟨_, accepted, same⟩ := Scope.parse_title_eq_ok.mp parsed
      exact ⟨same, (compiles_anchored.mp accepted).resolve_right closed⟩
    constructor
    · intro scope parsed window matched
      obtain ⟨rfl, isSome⟩ := isPattern parsed
      obtain ⟨pattern, found⟩ := Option.isSome_iff_exists.mp isSome
      exact ⟨pattern, found, (matches_title found window).mp matched⟩
    · intro notPattern scope parsed
      obtain ⟨_, isSome⟩ := isPattern parsed
      rw [notPattern] at isSome
      cases isSome

/-- A backslash before what is no letter or digit stands for that character. -/
def literalEscape (char : Char) : Option (Char → Bool) :=
  if char.isAlphanum then none else some (· = char)

example : (@Scope.matches (grammarEngine literalEscape) mailWindow (.title "^(?:in.*x|sent)$"),
    @Scope.matches (grammarEngine literalEscape) mailWindow (.title "^(?:in)$")) =
    (true, false) := by
  decide +kernel

/-- The value closes its group and opens another, so neither half is anchored to both
ends. -/
theorem unanchored_title :
    ¬TitleScoped literalEscape ")|(?:" ∧
      @Scope.parse (grammarEngine literalEscape) "title:)|(?:" = .ok (.title "^(?:)|(?:)$") ∧
      @Scope.matches (grammarEngine literalEscape) mailWindow (.title "^(?:)|(?:)$") = true := by
  have parsed : @Scope.parse (grammarEngine literalEscape) ("title:" ++ ")|(?:") =
      .ok (.title "^(?:)|(?:)$") := by
    decide +kernel
  have notPattern : parse literalEscape ")|(?:".toList = none := by
    rfl
  refine ⟨fun holds => holds.2 notPattern _ parsed, parsed, ?_⟩
  decide +kernel

end EclipseOS.PolicyEval
