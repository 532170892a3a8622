import EclipseOS.Abyss.Withhold

/-! # What a prompt's text says

The owner approves a command by its text. Two commands with one text are one command, and
nothing in the text is hidden. -/

namespace EclipseOS.Abyss.Withhold

open Cataclysm (isControl isWhitespace)

/-! ## Words -/

def escape (c : Char) : List Char :=
  if c = quoteMark then [quoteMark, '\\', quoteMark, quoteMark] else [c]

def Bare (text : List Char) : Prop :=
  text ≠ [] ∧ ∀ c ∈ text, isWhitespace c = false ∧ c ≠ quoteMark

/-- What follows a word: nothing, or what separates words. -/
def Follows (rest : List Char) : Prop := ∀ c, rest.head? = some c → isWhitespace c = true

def Spelled (text word : List Char) : Prop :=
  word = quoteMark :: text.flatMap escape ++ [quoteMark] ∨ (word = text ∧ Bare text)

variable {text text' word word' rest rest' : List Char}

theorem follows_head {c : Char} (follows : Follows (c :: rest)) : isWhitespace c = true :=
  follows c rfl

theorem escape_inj (follows : Follows rest) (follows' : Follows rest')
    (same : text.flatMap escape ++ quoteMark :: rest =
      text'.flatMap escape ++ quoteMark :: rest') : text = text' ∧ rest = rest' := by
  have apart : ∀ {text rest rest' : List Char} {c : Char}, Follows rest →
      quoteMark :: rest ≠ (c :: text).flatMap escape ++ quoteMark :: rest' := by
    intro text rest rest' c follows same
    rw [List.flatMap_cons, escape] at same
    split_ifs at same with quote
    · rw [List.cons_append, List.cons_append, List.cons.injEq] at same
      rcases same with ⟨-, rfl⟩
      exact absurd (follows_head follows) (by decide)
    · rw [List.cons_append, List.cons_append, List.cons.injEq] at same
      exact quote same.1.symm
  induction text generalizing text' with
  | nil =>
    cases text' with
    | nil => exact ⟨rfl, (List.cons.inj same).2⟩
    | cons c text' => exact absurd same (apart follows)
  | cons c text induction =>
    cases text' with
    | nil => exact absurd same.symm (apart follows')
    | cons d text' =>
      rw [List.flatMap_cons, List.flatMap_cons, List.append_assoc, List.append_assoc] at same
      by_cases quote : c = quoteMark
      · by_cases quote' : d = quoteMark
        · rw [escape, if_pos quote, escape, if_pos quote'] at same
          rcases induction (List.append_cancel_left same) with ⟨rfl, rfl⟩
          exact ⟨by rw [quote, quote'], rfl⟩
        · rw [escape, if_pos quote, escape, if_neg quote'] at same
          exact absurd (List.cons.inj same).1.symm quote'
      · by_cases quote' : d = quoteMark
        · rw [escape, if_neg quote, escape, if_pos quote'] at same
          exact absurd (List.cons.inj same).1 quote
        · rw [escape, if_neg quote, escape, if_neg quote'] at same
          rcases List.cons.inj same with ⟨rfl, tail⟩
          rcases induction tail with ⟨rfl, rfl⟩
          exact ⟨rfl, rfl⟩

theorem bare_inj (bare : ∀ c ∈ text, isWhitespace c = false)
    (bare' : ∀ c ∈ text', isWhitespace c = false) (follows : Follows rest)
    (follows' : Follows rest') (same : text ++ rest = text' ++ rest') :
    text = text' ∧ rest = rest' := by
  induction text generalizing text' with
  | nil =>
    cases text' with
    | nil => exact ⟨rfl, same⟩
    | cons c text' =>
      rw [List.nil_append] at same
      rw [same] at follows
      have separates := follows_head follows
      rw [bare' c List.mem_cons_self] at separates
      cases separates
  | cons c text induction =>
    cases text' with
    | nil =>
      rw [List.nil_append] at same
      rw [← same] at follows'
      have separates := follows_head follows'
      rw [bare c List.mem_cons_self] at separates
      cases separates
    | cons d text' =>
      rcases List.cons.inj same with ⟨rfl, tail⟩
      rcases induction (fun c member => bare c (List.mem_cons_of_mem _ member))
        (fun c member => bare' c (List.mem_cons_of_mem _ member)) tail with ⟨rfl, rfl⟩
      exact ⟨rfl, rfl⟩

theorem word_inj (spelled : Spelled text word) (spelled' : Spelled text' word')
    (follows : Follows rest) (follows' : Follows rest')
    (same : word ++ rest = word' ++ rest') : text = text' ∧ rest = rest' := by
  have mixed : ∀ {text text' rest rest' : List Char}, Bare text' →
      quoteMark :: text.flatMap escape ++ [quoteMark] ++ rest ≠ text' ++ rest' := by
    intro text text' rest rest' bare same
    cases text' with
    | nil => exact bare.1 rfl
    | cons c text' =>
      rw [List.cons_append, List.cons_append, List.cons_append, List.cons.injEq] at same
      exact (bare.2 c List.mem_cons_self).2 same.1.symm
  rcases spelled with rfl | ⟨rfl, bare⟩
  · rcases spelled' with rfl | ⟨rfl, bare'⟩
    · apply escape_inj follows follows'
      simpa using same
    · exact absurd same (mixed bare')
  · rcases spelled' with rfl | ⟨rfl, bare'⟩
    · exact absurd same.symm (mixed bare)
    · exact bare_inj (fun c member => (bare.2 c member).1) (fun c member => (bare'.2 c member).1)
        follows follows' same

/-! ## Argument lists -/

theorem visible_of_all {chars : List Char} (all : chars.all (!hidden ·) = true) :
    ∀ c ∈ chars, hidden c = false := by
  intro c member
  have kept := List.all_eq_true.mp all c member
  rwa [Bool.not_eq_true'] at kept

/-- No character of an argument list is stripped from what is shown. -/
def PlainArgv (argv : Argv) : Prop :=
  ∀ arg ∈ argv.1, ∀ c ∈ arg.1.toList, hidden c = false

theorem plainArgv_of_all {argv : Argv}
    (all : (argv.1.all fun arg => arg.1.toList.all (!hidden ·)) = true) : PlainArgv argv := by
  intro arg member
  exact visible_of_all (List.all_eq_true.mp all arg member)

theorem spelled_shown {arg : String} (plain : ∀ c ∈ arg.toList, hidden c = false) :
    Spelled arg.toList (shownArgument arg) := by
  have kept : arg.toList.filter (!hidden ·) = arg.toList := by
    rw [List.filter_eq_self]
    intro c member
    rw [plain c member]
    rfl
  rw [shownArgument, kept]
  split_ifs with quoted
  · exact .inl rfl
  · refine .inr ⟨rfl, fun empty => quoted (.inl empty), fun c member => ⟨?_, ?_⟩⟩
    · by_contra white
      refine quoted (.inr (List.any_eq_true.mpr ⟨c, member, ?_⟩))
      simp [Bool.not_eq_false _ ▸ white]
    · intro quote
      exact quoted (.inr (List.any_eq_true.mpr ⟨c, member, by simp [quote]⟩))

theorem shown_ne_nil (arg : String) : shownArgument arg ≠ [] := by
  rw [shownArgument]
  split_ifs with quoted
  · exact List.cons_ne_nil _ _
  · exact fun empty => quoted (.inl empty)

theorem intercalate_cons {words : List (List Char)} :
    List.intercalate [' '] (word :: words) = word ++ words.flatMap (' ' :: ·) := by
  induction words generalizing word with
  | nil => simp [List.intercalate]
  | cons next words induction =>
    have tail := @induction next
    simp only [List.intercalate, List.intersperse_cons_cons, List.flatten_cons] at tail ⊢
    rw [tail]
    simp

theorem follows_words (words : List (List Char)) : Follows (words.flatMap (' ' :: ·)) := by
  intro c isHead
  cases words with
  | nil => cases isHead
  | cons word words =>
    cases isHead
    decide

theorem words_inj {args args' : List Str}
    (plain : ∀ arg ∈ args, ∀ c ∈ arg.1.toList, hidden c = false)
    (plain' : ∀ arg ∈ args', ∀ c ∈ arg.1.toList, hidden c = false)
    (same : (args.map fun arg => shownArgument arg.1).flatMap (' ' :: ·) =
      (args'.map fun arg => shownArgument arg.1).flatMap (' ' :: ·)) : args = args' := by
  induction args generalizing args' with
  | nil =>
    cases args' with
    | nil => rfl
    | cons arg args' => cases same
  | cons arg args induction =>
    cases args' with
    | nil => cases same
    | cons arg' args' =>
      rw [List.map_cons, List.map_cons, List.flatMap_cons, List.flatMap_cons,
        List.cons_append, List.cons_append, List.cons.injEq] at same
      rcases word_inj (spelled_shown (plain arg List.mem_cons_self))
        (spelled_shown (plain' arg' List.mem_cons_self)) (follows_words _) (follows_words _)
        same.2 with ⟨text, rest⟩
      have equal : arg = arg' := Subtype.ext (String.toList_inj.mp text)
      rw [equal, induction (fun arg member => plain arg (List.mem_cons_of_mem _ member))
        (fun arg member => plain' arg (List.mem_cons_of_mem _ member)) rest]

theorem join_inj {argv argv' : Argv} (plain : PlainArgv argv) (plain' : PlainArgv argv')
    (same : join argv = join argv') : argv = argv' := by
  rcases argv with ⟨args, fits⟩
  rcases argv' with ⟨args', fits'⟩
  apply Subtype.ext
  have none : ∀ (arg : Str) (args : List Str),
      List.intercalate [' '] ((arg :: args).map fun arg => shownArgument arg.1) ≠ [] := by
    intro arg args
    rw [List.map_cons, intercalate_cons]
    exact fun empty => shown_ne_nil arg.1 (List.append_eq_nil_iff.mp empty).1
  cases args with
  | nil =>
    cases args' with
    | nil => rfl
    | cons arg' args' => exact absurd same.symm (none arg' args')
  | cons arg args =>
    cases args' with
    | nil => exact absurd same (none arg args)
    | cons arg' args' =>
      apply words_inj plain plain'
      rw [join, join, List.map_cons, List.map_cons, intercalate_cons, intercalate_cons] at same
      rw [List.map_cons, List.map_cons, List.flatMap_cons, List.flatMap_cons,
        List.cons_append, List.cons_append, same]

/-! ## The lines -/

/-- The line of an action, where there is one. -/
def actionLine (label : String) (action : Option Argv) : List (List Char) :=
  (action.map fun argv => (label ++ ": ").toList ++ join argv).toList

/-- The parts of a command widget's text: what it runs, and a line for each action. -/
def parts (w : CustomWidget) (argv : Argv) : List (List Char) :=
  join argv :: (actionLine "on-click" w.onClick ++ actionLine "on-scroll-up" w.onScrollUp ++
    actionLine "on-scroll-down" w.onScrollDown)

def runsArgv (w : CustomWidget) : Option Argv := w.kind.runs.map (·.2.1)

def fullText (w : CustomWidget) : List Char :=
  match runsArgv w with
  | none => []
  | some argv => List.intercalate ['\n'] (parts w argv)

variable {a b w : CustomWidget} {argv argv' : Argv}

theorem actions_eq (click up down : Option Argv) :
    [("on-click", click), ("on-scroll-up", up), ("on-scroll-down", down)].filterMap
        (fun (label, action) => action.map fun argv => (label ++ ": ").toList ++ join argv) =
      actionLine "on-click" click ++ actionLine "on-scroll-up" up ++
        actionLine "on-scroll-down" down := by
  cases click <;> cases up <;> cases down <;> rfl

theorem commandText_eq : commandText w = clamp (fullText w) := by
  rw [commandText, fullText, runsArgv]
  cases w.kind.runs with
  | none => rfl
  | some command =>
    rcases command with ⟨kind, argv, interval⟩
    exact congrArg (fun actions => clamp (List.intercalate ['\n'] (join argv :: actions)))
      (actions_eq w.onClick w.onScrollUp w.onScrollDown)

theorem shown_visible {arg : String} : ∀ c ∈ shownArgument arg, hidden c = false := by
  intro c member
  have kept : ∀ c ∈ arg.toList.filter (!hidden ·), hidden c = false := by
    intro c member
    simpa using (List.mem_filter.mp member).2
  rw [shownArgument] at member
  split_ifs at member
  · rcases List.mem_append.mp member with inside | last
    · rcases List.mem_cons.mp inside with rfl | escaped
      · decide
      · rcases List.mem_flatMap.mp escaped with ⟨d, among, spelled⟩
        split_ifs at spelled
        · simp only [List.mem_cons, List.not_mem_nil, or_false] at spelled
          rcases spelled with rfl | rfl | rfl | rfl <;> decide
        · rw [List.mem_singleton.mp spelled]
          exact kept d among
    · rw [List.mem_singleton.mp last]
      decide
  · exact kept c member

theorem join_visible : ∀ c ∈ join argv, hidden c = false := by
  intro c member
  rw [join] at member
  cases args : argv.1 with
  | nil =>
    rw [args] at member
    cases member
  | cons arg args' =>
    rw [args, List.map_cons, intercalate_cons] at member
    rcases List.mem_append.mp member with first | later
    · exact shown_visible c first
    · rcases List.mem_flatMap.mp later with ⟨word, among, spelled⟩
      rcases List.mem_cons.mp spelled with rfl | inWord
      · decide
      · rcases List.mem_map.mp among with ⟨arg, -, rfl⟩
        exact shown_visible c inWord

theorem actionLine_visible {label : String} {action : Option Argv}
    (plain : ∀ c ∈ (label ++ ": ").toList, hidden c = false) :
    ∀ line ∈ actionLine label action, ∀ c ∈ line, hidden c = false := by
  intro line member c inLine
  cases action with
  | none => cases member
  | some argv =>
    rw [actionLine, Option.map_some, Option.toList_some, List.mem_singleton] at member
    rw [member] at inLine
    rcases List.mem_append.mp inLine with inLabel | inArgs
    · exact plain c inLabel
    · exact join_visible c inArgs

theorem parts_visible : ∀ part ∈ parts w argv, ∀ c ∈ part, hidden c = false := by
  intro part member
  rcases List.mem_cons.mp member with rfl | inActions
  · exact join_visible
  · rcases List.mem_append.mp inActions with others | down
    · rcases List.mem_append.mp others with click | up
      · exact actionLine_visible (visible_of_all (by decide)) part click
      · exact actionLine_visible (visible_of_all (by decide)) part up
    · exact actionLine_visible (visible_of_all (by decide)) part down

theorem mem_intercalate {c : Char} {lines : List (List Char)}
    (member : c ∈ List.intercalate ['\n'] lines) : c = '\n' ∨ ∃ line ∈ lines, c ∈ line := by
  induction lines with
  | nil => cases member
  | cons line lines induction =>
    cases lines with
    | nil => exact .inr ⟨line, List.mem_cons_self, by simpa [List.intercalate] using member⟩
    | cons next lines =>
      simp only [List.intercalate, List.intersperse_cons_cons, List.flatten_cons,
        List.mem_append, List.mem_singleton] at member induction
      rcases member with inLine | isBreak | later
      · exact .inr ⟨line, List.mem_cons_self, inLine⟩
      · exact .inl isBreak
      · rcases induction later with isBreak | ⟨other, among, inOther⟩
        · exact .inl isBreak
        · exact .inr ⟨other, List.mem_cons_of_mem _ among, inOther⟩

theorem commandText_visible : ∀ c ∈ (commandText w).toList, hidden c = true → c = '\n' := by
  have full : ∀ c ∈ fullText w, hidden c = true → c = '\n' := by
    intro c member isHidden
    rw [fullText] at member
    cases runs : runsArgv w with
    | none =>
      rw [runs] at member
      cases member
    | some argv =>
      rw [runs] at member
      rcases mem_intercalate member with isBreak | ⟨part, inParts, inPart⟩
      · exact isBreak
      · rw [parts_visible part inParts c inPart] at isHidden
        cases isHidden
  intro c member isHidden
  rw [commandText_eq, clamp] at member
  split_ifs at member
  · rw [String.toList_ofList] at member
    exact full c member isHidden
  · rw [String.toList_ofList] at member
    rcases List.mem_append.mp member with kept | ellipsis
    · exact full c (List.mem_of_mem_take kept) isHidden
    · rw [List.mem_singleton.mp ellipsis] at isHidden
      exact absurd isHidden (by decide)

/-! ## One text, one command -/

/-- No character of a widget's arguments is stripped from what is shown. -/
structure Plain (w : CustomWidget) : Prop where
  argv : ∀ argv ∈ runsArgv w, PlainArgv argv
  onClick : ∀ argv ∈ w.onClick, PlainArgv argv
  onScrollUp : ∀ argv ∈ w.onScrollUp, PlainArgv argv
  onScrollDown : ∀ argv ∈ w.onScrollDown, PlainArgv argv

def Uncut (w : CustomWidget) : Prop := (fullText w).length ≤ COMMAND_TEXT_MAX

instance (w : CustomWidget) : Decidable (Uncut w) := inferInstanceAs (Decidable (_ ≤ _))

def labelled (label : String) (lines : List (List Char)) : List (List Char) :=
  lines.filter ((label ++ ": ").toList.isPrefixOf ·)

theorem labelled_own {label : String} {action : Option Argv} :
    labelled label (actionLine label action) = actionLine label action := by
  cases action with
  | none => rfl
  | some argv =>
    rw [labelled, List.filter_eq_self]
    intro line member
    rw [actionLine, Option.map_some, Option.toList_some, List.mem_singleton] at member
    rw [member, List.isPrefixOf_iff_prefix]
    exact List.prefix_append _ _

theorem labelled_other {label other : String} {action : Option Argv}
    (apart : ∀ text, (label ++ ": ").toList.isPrefixOf ((other ++ ": ").toList ++ text) = false) :
    labelled label (actionLine other action) = [] := by
  cases action with
  | none => rfl
  | some argv =>
    rw [labelled, List.filter_eq_nil_iff]
    intro line member
    rw [actionLine, Option.map_some, Option.toList_some, List.mem_singleton] at member
    rw [member, apart]
    exact Bool.false_ne_true

theorem actionLine_inj {label : String} {action action' : Option Argv}
    (plain : ∀ argv ∈ action, PlainArgv argv) (plain' : ∀ argv ∈ action', PlainArgv argv)
    (same : actionLine label action = actionLine label action') : action = action' := by
  cases action with
  | none =>
    cases action' with
    | none => rfl
    | some argv => cases same
  | some argv =>
    cases action' with
    | none => cases same
    | some argv' =>
      simp only [actionLine, Option.map_some, Option.toList_some, List.cons.injEq,
        and_true] at same
      rw [join_inj (plain argv rfl) (plain' argv' rfl) (List.append_cancel_left same)]

theorem parts_inj (plain : Plain a) (plain' : Plain b) (runs : runsArgv a = some argv)
    (runs' : runsArgv b = some argv') (same : parts a argv = parts b argv') :
    argv = argv' ∧ a.onClick = b.onClick ∧ a.onScrollUp = b.onScrollUp ∧
      a.onScrollDown = b.onScrollDown := by
  rcases List.cons.inj same with ⟨first, lines⟩
  have click := congrArg (labelled "on-click") lines
  have up := congrArg (labelled "on-scroll-up") lines
  have down := congrArg (labelled "on-scroll-down") lines
  have clickUp : ∀ action, labelled "on-click" (actionLine "on-scroll-up" action) = [] :=
    fun action => labelled_other fun text => rfl
  have clickDown : ∀ action, labelled "on-click" (actionLine "on-scroll-down" action) = [] :=
    fun action => labelled_other fun text => rfl
  have upClick : ∀ action, labelled "on-scroll-up" (actionLine "on-click" action) = [] :=
    fun action => labelled_other fun text => rfl
  have upDown : ∀ action, labelled "on-scroll-up" (actionLine "on-scroll-down" action) = [] :=
    fun action => labelled_other fun text => rfl
  have downClick : ∀ action, labelled "on-scroll-down" (actionLine "on-click" action) = [] :=
    fun action => labelled_other fun text => rfl
  have downUp : ∀ action, labelled "on-scroll-down" (actionLine "on-scroll-up" action) = [] :=
    fun action => labelled_other fun text => rfl
  have splits : ∀ label (one two three : List (List Char)), labelled label (one ++ two ++ three) =
      labelled label one ++ labelled label two ++ labelled label three := by
    intro label one two three
    rw [labelled, List.filter_append, List.filter_append]
    rfl
  rw [splits, splits, labelled_own, labelled_own, clickUp, clickUp, clickDown, clickDown,
    List.append_nil, List.append_nil, List.append_nil, List.append_nil] at click
  rw [splits, splits, labelled_own, labelled_own, upClick, upClick, upDown, upDown,
    List.nil_append, List.nil_append, List.append_nil, List.append_nil] at up
  rw [splits, splits, labelled_own, labelled_own, downClick, downClick, downUp, downUp,
    List.nil_append, List.nil_append, List.nil_append] at down
  exact ⟨join_inj (plain.argv argv runs) (plain'.argv argv' runs') first,
    actionLine_inj plain.onClick plain'.onClick click,
    actionLine_inj plain.onScrollUp plain'.onScrollUp up,
    actionLine_inj plain.onScrollDown plain'.onScrollDown down⟩

theorem commandText_inj (plain : Plain a) (plain' : Plain b) (uncut : Uncut a)
    (uncut' : Uncut b) (runs : (runsArgv a).isSome) (runs' : (runsArgv b).isSome)
    (same : commandText a = commandText b) :
    runsArgv a = runsArgv b ∧ a.onClick = b.onClick ∧ a.onScrollUp = b.onScrollUp ∧
      a.onScrollDown = b.onScrollDown := by
  rw [Uncut] at uncut uncut'
  rcases Option.isSome_iff_exists.mp runs with ⟨argv, isArgv⟩
  rcases Option.isSome_iff_exists.mp runs' with ⟨argv', isArgv'⟩
  rw [commandText_eq, commandText_eq, clamp, clamp, if_pos uncut, if_pos uncut',
    String.ofList_inj, fullText, fullText, isArgv, isArgv'] at same
  have noBreak : ∀ (w : CustomWidget) (argv : Argv), ∀ part ∈ parts w argv, '\n' ∉ part := by
    intro w argv part member isBreak
    exact absurd (parts_visible part member _ isBreak) (by decide)
  have split := congrArg (List.splitOn '\n') same
  rw [List.splitOn_intercalate _ (noBreak a argv) (List.cons_ne_nil _ _),
    List.splitOn_intercalate _ (noBreak b argv') (List.cons_ne_nil _ _)] at split
  rcases parts_inj plain plain' isArgv isArgv' split with ⟨rfl, click, up, down⟩
  exact ⟨by rw [isArgv, isArgv'], click, up, down⟩

/-- The text determines the command, and hides nothing but the breaks between its parts. -/
theorem commandText_determines :
    (∀ a b : CustomWidget, (runsArgv a).isSome → (runsArgv b).isSome → Plain a → Plain b →
      Uncut a → Uncut b → commandText a = commandText b →
        runsArgv a = runsArgv b ∧ a.onClick = b.onClick ∧ a.onScrollUp = b.onScrollUp ∧
          a.onScrollDown = b.onScrollDown) ∧
    ∀ w : CustomWidget, (∀ c ∈ (commandText w).toList, hidden c = true → c = '\n') ∧
      ∀ argv ∈ runsArgv w, ∀ part ∈ parts w argv, ∀ c ∈ part, hidden c = false :=
  ⟨fun _ _ runs runs' plain plain' uncut uncut' same =>
      commandText_inj plain plain' uncut uncut' runs runs' same,
    fun _ => ⟨commandText_visible, fun _ _ => parts_visible⟩⟩

/-- An argument with a space and one with a quote, run at intervals or as a stream. -/
def echoes (kind : Argv → CustomWidgetKind) : CustomWidget :=
  ⟨"x", kind ⟨[⟨"echo", by decide⟩, ⟨"a b", by decide⟩, ⟨"it's", by decide⟩], by decide⟩, none,
    some ⟨[⟨"foot", by decide⟩], by decide⟩, none, none⟩

theorem commandText_determines_echoes :
    runsArgv (echoes (.exec · 1000)) = runsArgv (echoes .stream) := by
  have plain : ∀ kind : Argv → CustomWidgetKind,
      runsArgv (echoes kind) = runsArgv (echoes .stream) → Plain (echoes kind) := by
    intro kind runs
    refine ⟨fun argv isArgv => ?_, fun argv isArgv => ?_, fun argv isArgv => ?_,
      fun argv isArgv => ?_⟩
    · rw [runs] at isArgv
      cases isArgv
      exact plainArgv_of_all (by decide)
    · cases isArgv
      exact plainArgv_of_all (by decide)
    · cases isArgv
    · cases isArgv
  exact (commandText_determines.1 (echoes (.exec · 1000)) (echoes .stream) rfl rfl (plain _ rfl)
    (plain _ rfl) (by decide +kernel) (by decide +kernel) rfl).1

end EclipseOS.Abyss.Withhold
