import EclipseOS.PolicyEval.TableDelimited
import EclipseOS.Policyd.Policy

/-! # The pushed table

What the compositor makes of the bytes a recompile pushes. -/

namespace EclipseOS.PolicyEval

open Foundation Cbor

/-! ## Encoded lengths

No part of an encoding is longer than the whole, so a short encoding carries
short texts only. -/

theorem textFits_of_length {text : String} (short : (Writer.text text).length < 2 ^ 64) :
    TextFits text :=
  lt_of_le_of_lt (length_le_text text) short

theorem textsFit_iff {items : List String} (short : (texts items).length < 2 ^ 64) :
    TextsFit items ↔ 1 ≤ items.length ∧ items.length ≤ maxItems := by
  refine ⟨fun fit => ⟨fit.1, fit.2.1⟩, fun sizes => ⟨sizes.1, sizes.2, ?_⟩⟩
  intro text member
  exact textFits_of_length (lt_of_le_of_lt (length_le_arrayOf member) short)

theorem PredFields.fit_iff {fields : PredFields}
    (short : (mapBytes (presentRows (schema.rows fields))).length < 2 ^ 64) :
    fields.Fit ↔ ∀ items ∈ fields.a, 1 ≤ items.length ∧ items.length ≤ maxItems := by
  have within : ∀ name value, (name, some value) ∈ schema.rows fields →
      value.length < 2 ^ 64 :=
    fun name value member => lt_of_le_of_lt (length_le_record member) short
  rcases fields with ⟨name, a, re, b, milli⟩
  have listed : ∀ items ∈ a, (texts items).length < 2 ^ 64 := by
    rintro items rfl
    exact within "a" _ (by simp [schema, Schema.rows])
  constructor
  · intro fit items isA
    exact (textsFit_iff (listed items isA)).mp (fit.a items isA)
  · intro sizes
    refine ⟨?_, fun items isA => (textsFit_iff (listed items isA)).mpr (sizes items isA), ?_⟩
    · rintro text rfl
      exact textFits_of_length (within "p" _ (by simp [schema, Schema.rows]))
    · rintro source rfl
      exact textFits_of_length (within "re" _ (by simp [schema, Schema.rows]))

theorem MatcherFields.fit_iff {fields : MatcherFields}
    (short : (mapBytes (presentRows (schema.rows fields))).length < 2 ^ 64) :
    fields.Fit ↔ ∀ items ∈ fields.a, 1 ≤ items.length ∧ items.length ≤ maxItems := by
  have within : ∀ name value, (name, some value) ∈ schema.rows fields →
      value.length < 2 ^ 64 :=
    fun name value member => lt_of_le_of_lt (length_le_record member) short
  rcases fields with ⟨name, a, re, b⟩
  have listed : ∀ items ∈ a, (texts items).length < 2 ^ 64 := by
    rintro items rfl
    exact within "a" _ (by simp [schema, Schema.rows])
  constructor
  · intro fit items isA
    exact (textsFit_iff (listed items isA)).mp (fit.a items isA)
  · intro sizes
    refine ⟨?_, fun items isA => (textsFit_iff (listed items isA)).mpr (sizes items isA), ?_⟩
    · rintro text rfl
      exact textFits_of_length (within "p" _ (by simp [schema, Schema.rows]))
    · rintro source rfl
      exact textFits_of_length (within "re" _ (by simp [schema, Schema.rows]))

end EclipseOS.PolicyEval

namespace EclipseOS.Policyd

open Foundation PolicyEval Cbor

/-! ## Sizes of a source -/

def childrenOf (node : KdlNode) : List KdlNode := node.children.getD []

/-- The children of a rule that are predicates. -/
def predNodes (node : KdlNode) : List KdlNode :=
  (childrenOf node).filter (·.name ≠ "unless")

/-- The `grant_has` nodes of a rule's `unless` blocks. -/
def grantNodes (node : KdlNode) : List KdlNode :=
  ((childrenOf node).filter (·.name = "unless")).flatMap childrenOf

/-- A `rule` node as small as the decoder wants it. -/
structure RuleSizes (node : KdlNode) : Prop where
  preds : (predNodes node).length ≤ maxItems
  grants : (grantNodes node).length ≤ maxItems
  values : ∀ pred ∈ predNodes node, (strings pred).length ≤ maxItems

/-- A `classify` or `trust` node as small as the decoder wants it. -/
structure MatcherSizes (node : KdlNode) : Prop where
  matchers : (childrenOf node).length ≤ maxItems
  values : ∀ «matcher» ∈ childrenOf node, (strings «matcher»).length ≤ maxItems

def isRule (phase : Phase) (node : KdlNode) : Bool :=
  node.name = "rule" ∧
    ((arguments node)[1]?.bind (·.asString)).bind phaseOf = some phase

/-- A source as small as the decoder wants it. -/
structure SourceSizes (nodes : List KdlNode) : Prop where
  rules : ∀ phase, (nodes.filter (isRule phase)).length ≤ maxRules ∧
    ∀ node ∈ nodes.filter (isRule phase), RuleSizes node
  classify : (nodes.filter (·.name = "classify")).length ≤ maxRules ∧
    ∀ node ∈ nodes.filter (·.name = "classify"), MatcherSizes node
  trust : (nodes.filter (·.name = "trust")).length ≤ maxRules ∧
    ∀ node ∈ nodes.filter (·.name = "trust"), MatcherSizes node

/-- The top-level nodes of every file, in order. -/
def sourceNodes [KdlParser] (files : List (String × String)) : List KdlNode :=
  files.flatMap fun file => (KdlParser.parse file.2).toOption.getD []

/-! ## Predicates and matchers -/

theorem okOr_eq_ok {α : Type} {what : String} {found : Option α} {value : α} :
    okOr what found = .ok value ↔ found = some value := by
  cases found <;> simp [okOr]

theorem words_eq_ok {what : String} {node : KdlNode} {texts : List String}
    (success : words what node = .ok texts) : texts = strings node ∧ strings node ≠ [] := by
  unfold words at success
  split at success
  · cases success
  · rename_i wellFormed
    cases success
    exact ⟨rfl, fun empty => wellFormed (.inl empty)⟩

theorem globs_eq_ok {what : String} {node : KdlNode} {globs : List Glob}
    (success : Policyd.globs what node = .ok globs) :
    globs = (strings node).map Glob.new ∧ strings node ≠ [] := by
  rcases ok_of_bind_ok success with ⟨texts, read, result⟩
  cases result
  rcases words_eq_ok read with ⟨rfl, some⟩
  exact ⟨rfl, some⟩

theorem strings_of_onlyArgument {node : KdlNode} {value : KdlValue}
    (only : onlyArgument node = some value) : strings node = value.asString.toList := by
  unfold onlyArgument at only
  split at only
  · rename_i entries
    cases only
    cases text : value.asString <;> simp [strings, entries, text]
  · cases only

theorem strings_of_prop {node : KdlNode} {name : String} {value : KdlValue}
    (single : node.entries.length = 1) (found : prop node name = some value) :
    strings node = [] := by
  obtain ⟨entry, entries⟩ := List.length_eq_one_iff.mp single
  simp only [prop, entries, Option.map_eq_some_iff] at found
  rcases found with ⟨_, isEntry, -⟩
  have named := List.find?_some isEntry
  obtain rfl := List.mem_singleton.mp (List.mem_of_find?_eq_some isEntry)
  simp only [decide_eq_true_eq] at named
  simp [strings, entries, named]

theorem oneRegex_eq_ok [RegexEngine] {node : KdlNode} {regex : Regex}
    (success : oneRegex node = .ok regex) : (strings node).length = 1 := by
  unfold oneRegex at success
  split at success
  · rename_i single _
    simp [single]
  · cases success

theorem strings_of_oneRate {node : KdlNode} {rate : Rate}
    (success : oneRate node = .ok rate) : strings node = [] := by
  unfold oneRate at success
  split at success
  · rename_i number found
    obtain ⟨value, only, isNumber⟩ := Option.bind_eq_some_iff.mp found
    rw [strings_of_onlyArgument only]
    cases value with
    | string | bool | null => cases isNumber
    | integer | float => rfl
  · cases success

theorem strings_of_oneBool {node : KdlNode} {value : Bool}
    (found : (onlyArgument node).bind (·.asBool) = some value) : strings node = [] := by
  obtain ⟨argument, only, isBool⟩ := Option.bind_eq_some_iff.mp found
  rw [strings_of_onlyArgument only]
  cases argument with
  | bool => rfl
  | string | integer | float | null => cases isBool

/-- How many values a predicate's list has, or one where it has no list. -/
def valueCount (values : Option (List String)) : Nat := values.elim 1 List.length

theorem valueCount_iff {values : Option (List String)} {count : Nat}
    (same : valueCount values = max 1 count) :
    (∀ items ∈ values, 1 ≤ items.length ∧ items.length ≤ maxItems) ↔
      count ≤ maxItems := by
  have room : 1 ≤ maxItems := by decide
  cases values with
  | none =>
    simp only [valueCount, Option.elim_none] at same
    simp only [Option.mem_def, reduceCtorEq, IsEmpty.forall_iff, implies_true, true_iff]
    omega
  | some items =>
    simp only [valueCount, Option.elim_some] at same
    simp only [Option.mem_def, Option.some.injEq, forall_eq']
    omega

theorem provenance_values [RegexEngine] {node : KdlNode} {pred : Pred}
    (success : provenance node = .ok pred) :
    valueCount pred.fields.a = 1 ∧ strings node = [] := by
  unfold provenance at success
  split at success
  · cases success
  rename_i single
  rw [not_not] at single
  split at success
  · rename_i trust _ found _
    obtain ⟨_, _, rfl⟩ := map_eq_ok.mp success
    exact ⟨rfl, strings_of_prop single found⟩
  · rename_i _ source _ found
    obtain ⟨_, _, rfl⟩ := map_eq_ok.mp success
    exact ⟨rfl, strings_of_prop single found⟩
  · cases success

theorem compilePred_values [RegexEngine] {node : KdlNode} {pred : Pred}
    (success : compilePred node = .ok pred) :
    valueCount pred.fields.a = max 1 (strings node).length := by
  have nonempty : strings node ≠ [] → max 1 (strings node).length = (strings node).length :=
    fun some => max_eq_right (List.length_pos_iff.mpr some)
  unfold compilePred at success
  split at success
  case h_2 | h_13 =>
    rcases ok_of_bind_ok success with ⟨texts, read, continued⟩
    rcases ok_of_bind_ok continued with ⟨values, converted, result⟩
    cases result
    rcases words_eq_ok read with ⟨rfl, some⟩
    have sameLength := (forall₂_of_mapM converted).length_eq
    rw [nonempty some, sameLength]
    simp [valueCount, Pred.fields]
  case h_4 | h_6 =>
    obtain ⟨regex, read, rfl⟩ := map_eq_ok.mp success
    rw [oneRegex_eq_ok read]
    rfl
  case h_8 =>
    obtain ⟨rate, read, rfl⟩ := map_eq_ok.mp success
    rw [strings_of_oneRate read]
    rfl
  case h_14 =>
    obtain ⟨value, read, rfl⟩ := map_eq_ok.mp success
    rw [strings_of_oneBool (okOr_eq_ok.mp read)]
    rfl
  case h_15 =>
    rcases provenance_values success with ⟨one, none⟩
    rw [one, none]
    rfl
  case h_16 =>
    split at success
    · cases success
    · rename_i noEntries
      cases success
      simp [valueCount, Pred.fields, strings, not_not.mp noEntries]
  case h_17 => split at success <;> cases success
  all_goals obtain ⟨values, read, rfl⟩ := map_eq_ok.mp success
  all_goals first | obtain ⟨rfl, some⟩ := globs_eq_ok read | obtain ⟨rfl, some⟩ := words_eq_ok read
  all_goals simp [valueCount, Pred.fields, nonempty some]

theorem compileMatcher_values [RegexEngine] {what : String} {node : KdlNode}
    {found : Matcher} (success : compileMatcher what node = .ok found) :
    valueCount found.fields.a = max 1 (strings node).length := by
  have nonempty : strings node ≠ [] → max 1 (strings node).length = (strings node).length :=
    fun some => max_eq_right (List.length_pos_iff.mpr some)
  unfold compileMatcher at success
  split at success
  case h_5 =>
    split at success
    · rename_i single _
      obtain ⟨regex, _, rfl⟩ := map_eq_ok.mp success
      rw [single]
      rfl
    · cases success
  case h_6 =>
    obtain ⟨value, read, rfl⟩ := map_eq_ok.mp success
    rw [strings_of_oneBool (okOr_eq_ok.mp read)]
    rfl
  case h_1 | h_2 | h_3 | h_4 =>
    obtain ⟨values, read, rfl⟩ := map_eq_ok.mp success
    obtain ⟨rfl, some⟩ := globs_eq_ok read
    simp [valueCount, Matcher.fields, nonempty some]
  all_goals cases success

/-! ## Rules -/

section Rules

variable [RegexEngine]

/-- What a `rule` node compiles to. -/
structure CompiledFrom (node : KdlNode) (rule : CompiledRule) : Prop where
  named : rule.id ≠ ""
  preds : List.Forall₂ (fun node pred => compilePred node = .ok pred) (predNodes node)
    rule.preds
  grants : rule.«unless».length = (grantNodes node).length

omit [RegexEngine] in
theorem compileUnless_length {node : KdlNode} {clauses : List Unless}
    (success : compileUnless node = .ok clauses) :
    clauses.length = (childrenOf node).length := by
  unfold compileUnless at success
  split at success
  · cases success
  · rename_i children found
    simpa [childrenOf, found] using (forall₂_of_mapM success).length_eq.symm

theorem foldlM_compileClause {nodes : List KdlNode} {preds preds' : List Pred}
    {clauses clauses' : List Unless}
    (success : nodes.foldlM compileClause (preds, clauses) = .ok (preds', clauses')) :
    (∃ added, preds' = preds ++ added ∧
      List.Forall₂ (fun node pred => compilePred node = .ok pred)
        (nodes.filter (·.name ≠ "unless")) added) ∧
      clauses'.length =
        clauses.length +
          ((nodes.filter (·.name = "unless")).flatMap childrenOf).length := by
  induction nodes generalizing preds clauses with
  | nil =>
    cases success
    exact ⟨⟨[], (List.append_nil _).symm, .nil⟩, rfl⟩
  | cons node nodes induction =>
    rw [List.foldlM_cons] at success
    rcases ok_of_bind_ok success with ⟨_, stepped, rest⟩
    unfold compileClause at stepped
    split at stepped
    · rename_i isUnless
      rcases ok_of_bind_ok stepped with ⟨added, compiled, result⟩
      cases result
      rcases induction rest with ⟨more, counted⟩
      simp only [List.length_append, compileUnless_length compiled] at counted
      simp only [isUnless, ne_eq, decide_true, decide_not, Bool.not_true,
        Bool.false_eq_true, not_false_eq_true, List.filter_cons_of_neg,
        List.filter_cons_of_pos, List.flatMap_cons, List.length_append]
      exact ⟨by simpa using more, by omega⟩
    · rename_i isPred
      rcases ok_of_bind_ok stepped with ⟨pred, compiled, result⟩
      cases result
      rcases induction rest with ⟨⟨added, rfl, more⟩, counted⟩
      simp only [isPred, ne_eq, decide_false, decide_not, Bool.not_false,
        Bool.false_eq_true, not_false_eq_true, List.filter_cons_of_neg,
        List.filter_cons_of_pos]
      exact ⟨⟨pred :: added, by simp, .cons compiled (by simpa using more)⟩, counted⟩

theorem compileRule_eq_ok {node : KdlNode} {phase : Phase} {rule : CompiledRule}
    (success : compileRule node = .ok (phase, rule)) :
    ((arguments node)[1]?.bind (·.asString)).bind phaseOf = some phase ∧
      CompiledFrom node rule := by
  unfold compileRule at success
  split at success
  · cases success
  rename_i id hasId
  split at success
  · rename_i first second twoArguments _
    split at success
    · cases success
    · cases success
    · rename_i phase children isPhase hasChildren
      split at success
      · cases success
      · cases success
      · rename_i preds clauses _ folded
        cases success
        rcases foldlM_compileClause folded with ⟨⟨added, rfl, compiled⟩, counted⟩
        refine ⟨by simp [twoArguments, isPhase], ?_, ?_, ?_⟩
        · exact of_decide_eq_true (Option.filter_eq_some_iff.mp hasId).2
        · simpa [predNodes, childrenOf, hasChildren] using compiled
        · simpa [grantNodes, childrenOf, hasChildren] using counted
  · cases success

theorem CompiledFrom.withinLimits_iff {node : KdlNode} {rule : CompiledRule}
    (source : CompiledFrom node rule) (short : (encodeRule rule).length < 2 ^ 64) :
    rule.WithinLimits ↔ RuleSizes node := by
  rw [encodeRule_eq] at short
  have within : ∀ name value, (name, some value) ∈ RuleFields.schema.rows rule.fields →
      value.length < 2 ^ 64 :=
    fun name value member => lt_of_le_of_lt (length_le_record member) short
  have shortPred : ∀ pred ∈ rule.preds, (encodePred pred).length < 2 ^ 64 :=
    fun pred member => lt_of_le_of_lt (length_le_arrayOf member)
      (within "preds" _ (by simp [RuleFields.schema, Schema.rows, CompiledRule.fields]))
  have shortUnless : ∀ clause ∈ rule.«unless», (encodeUnless clause).length < 2 ^ 64 :=
    fun clause member => lt_of_le_of_lt (length_le_arrayOf member)
      (within "unless" _ (by simp [RuleFields.schema, Schema.rows, CompiledRule.fields]))
  have idFits : TextFits rule.id :=
    textFits_of_length (within "id" _
      (by simp [RuleFields.schema, Schema.rows, CompiledRule.fields]))
  have clausesFit : ∀ clause ∈ rule.«unless», clause.Fit := by
    intro clause member
    have shortClause := shortUnless clause member
    rw [encodeUnless_eq] at shortClause
    have isField : ("capability", some (Writer.text clause.capability)) ∈
        UnlessFields.schema.rows clause.fields := by
      simp [UnlessFields.schema, Schema.rows, Unless.fields]
    exact textFits_of_length (lt_of_le_of_lt (length_le_record isField) shortClause)
  have predsFit : (∀ written ∈ predNodes node, (strings written).length ≤ maxItems) ↔
      ∀ pred ∈ rule.preds, pred.Fit := by
    refine forall₂_forall_iff source.preds fun written pred member compiled => ?_
    have shortFields := shortPred pred member
    rw [encodePred_eq] at shortFields
    rw [Pred.Fit, PredFields.fit_iff shortFields,
      valueCount_iff (compilePred_values compiled)]
  constructor
  · intro limits
    refine ⟨?_, ?_, predsFit.mpr limits.preds.2⟩
    · rw [source.preds.length_eq]
      exact limits.preds.1
    · rw [← source.grants]
      exact limits.«unless».1
  · intro sizes
    refine ⟨⟨source.named, idFits⟩, ⟨?_, predsFit.mp sizes.values⟩, ?_, clausesFit⟩
    · rw [← source.preds.length_eq]
      exact sizes.preds
    · rw [source.grants]
      exact sizes.grants

end Rules

/-! ## The classifier -/

section Classifier

variable [RegexEngine]

/-- What the children of a `classify` or `trust` node compile to. -/
def MatchersFrom (node : KdlNode) (matchers : List Matcher) : Prop :=
  matchers ≠ [] ∧ ∃ what,
    List.Forall₂ (fun node found => compileMatcher what node = .ok found)
      (childrenOf node) matchers

theorem compileMatchers_eq_ok {node : KdlNode} {what : String} {matchers : List Matcher}
    (success : compileMatchers node what = .ok matchers) : MatchersFrom node matchers := by
  unfold compileMatchers at success
  split at success
  · cases success
  rename_i children found
  rcases ok_of_bind_ok success with ⟨compiled, mapped, checked⟩
  split at checked
  · cases checked
  · rename_i nonempty
    cases checked
    exact ⟨nonempty, what, by simpa [childrenOf, found] using forall₂_of_mapM mapped⟩

theorem compileClassify_eq_ok {node : KdlNode} {rule : ClassifyRule}
    (success : compileClassify node = .ok rule) : MatchersFrom node rule.matchers := by
  unfold compileClassify at success
  split at success
  · rcases ok_of_bind_ok success with ⟨found, _, continued⟩
    rcases ok_of_bind_ok continued with ⟨matchers, compiled, result⟩
    cases result
    exact compileMatchers_eq_ok compiled
  · cases success

theorem compileTrust_eq_ok {node : KdlNode} {rule : TrustRule}
    (success : compileTrust node = .ok rule) :
    rule.trust ≠ .human ∧ MatchersFrom node rule.matchers := by
  unfold compileTrust at success
  split at success
  · rcases ok_of_bind_ok success with ⟨trust, isTrust, continued⟩
    rcases ok_of_bind_ok continued with ⟨matchers, compiled, result⟩
    cases result
    have allowed := (Option.filter_eq_some_iff.mp (okOr_eq_ok.mp isTrust)).2
    exact ⟨of_decide_eq_true allowed, compileMatchers_eq_ok compiled⟩
  · cases success

theorem matchersFit_iff {node : KdlNode} {matchers : List Matcher}
    (source : MatchersFrom node matchers)
    (short : (encodeMatchers matchers).length < 2 ^ 64) :
    MatchersFit matchers ↔ MatcherSizes node := by
  rcases source with ⟨nonempty, what, compiled⟩
  have values : (∀ written ∈ childrenOf node, (strings written).length ≤ maxItems) ↔
      ∀ found ∈ matchers, found.Fit := by
    refine forall₂_forall_iff compiled fun written found member success => ?_
    have shortFields := lt_of_le_of_lt (length_le_arrayOf member) short
    rw [encodeMatcher_eq] at shortFields
    rw [Matcher.Fit, MatcherFields.fit_iff shortFields,
      valueCount_iff (compileMatcher_values success)]
  have some := List.length_pos_iff.mpr nonempty
  constructor
  · intro fit
    exact ⟨by rw [compiled.length_eq]; exact fit.2.1, values.mpr fit.2.2⟩
  · intro sizes
    exact ⟨some, by rw [← compiled.length_eq]; exact sizes.matchers, values.mp sizes.values⟩

end Classifier

/-! ## The whole source -/

section Source

variable [RegexEngine]

structure CompiledSource (nodes : List KdlNode) (compiled : Compiled) : Prop where
  rules : ∀ phase, List.Forall₂ CompiledFrom (nodes.filter (isRule phase))
    (rulesOf compiled.rules phase)
  classify : List.Forall₂ (fun node (rule : ClassifyRule) => MatchersFrom node rule.matchers)
    (nodes.filter (·.name = "classify")) compiled.classifier.classify
  trust : List.Forall₂
    (fun node (rule : TrustRule) => rule.trust ≠ .human ∧ MatchersFrom node rule.matchers)
    (nodes.filter (·.name = "trust")) compiled.classifier.trust
  default : compiled.classifier.default ≠ .«public»

theorem foldlM_compileDefault {file : String} {nodes : List KdlNode}
    {compiled next : Compiled}
    (success : nodes.foldlM (compileDefault file) compiled = .ok next)
    (default : compiled.classifier.default ≠ .«public») :
    next.rules = compiled.rules ∧ next.classifier.classify = compiled.classifier.classify ∧
      next.classifier.trust = compiled.classifier.trust ∧
      next.classifier.default ≠ .«public» := by
  induction nodes generalizing compiled with
  | nil =>
    cases success
    exact ⟨rfl, rfl, rfl, default⟩
  | cons node nodes induction =>
    rw [List.foldlM_cons] at success
    rcases ok_of_bind_ok success with ⟨middle, stepped, rest⟩
    unfold compileDefault at stepped
    split at stepped
    · split at stepped
      · cases stepped
        have kept := induction rest (by simp)
        exact kept
      · cases stepped
        have kept := induction rest (by simp)
        exact kept
      · cases stepped
    · cases stepped
      have kept := induction rest default
      exact kept

theorem rulesOf_push (rules : Phases) (rule : CompiledRule) (phase other : Phase) :
    rulesOf (push rules rule phase) other =
      if phase = other then rulesOf rules other ++ [rule] else rulesOf rules other := by
  cases phase <;> cases other <;> rfl

theorem CompiledSource.step {file : String} {nodes : List KdlNode} {node : KdlNode}
    {compiled next : Compiled} (source : CompiledSource nodes compiled)
    (success : compileNode file compiled node = .ok next) :
    CompiledSource (nodes ++ [node]) next := by
  have one : ∀ {β : Type} {relation : KdlNode → β → Prop} {made : List β} {result : β}
      {keep : KdlNode → Bool}, List.Forall₂ relation (nodes.filter keep) made →
      keep node → relation node result →
      List.Forall₂ relation ((nodes ++ [node]).filter keep) (made ++ [result]) := by
    intro β relation made result keep before kept related
    rw [List.filter_append, List.filter_singleton, kept]
    exact List.rel_append before (.cons related .nil)
  have same : ∀ {β : Type} {relation : KdlNode → β → Prop} {made : List β}
      {keep : KdlNode → Bool}, List.Forall₂ relation (nodes.filter keep) made →
      keep node = false →
      List.Forall₂ relation ((nodes ++ [node]).filter keep) made := by
    intro β relation made keep before skipped
    simpa [skipped] using before
  unfold compileNode at success
  split at success
  · rename_i isRuleNode
    split at success
    · cases success
    rename_i phase rule compiledRule
    split at success
    · cases success
    cases success
    rcases compileRule_eq_ok compiledRule with ⟨inPhase, made⟩
    refine ⟨fun other => ?_, same source.classify ?_, same source.trust ?_, source.default⟩
    · rw [rulesOf_push]
      split
      · rename_i samePhase
        exact one (source.rules other) (by simp [isRule, isRuleNode, inPhase, samePhase]) made
      · rename_i otherPhase
        exact same (source.rules other) (by simp [isRule, inPhase, otherPhase])
    · simp [isRuleNode]
    · simp [isRuleNode]
  · rename_i isClassify
    split at success
    · cases success
    rename_i rule compiledRule
    cases success
    refine ⟨fun phase => same (source.rules phase) (by simp [isRule, isClassify]),
      one source.classify (by simp [isClassify]) (compileClassify_eq_ok compiledRule),
      same source.trust (by simp [isClassify]), source.default⟩
  · rename_i isTrust
    split at success
    · cases success
    rename_i rule compiledRule
    cases success
    refine ⟨fun phase => same (source.rules phase) (by simp [isRule, isTrust]),
      same source.classify (by simp [isTrust]),
      one source.trust (by simp [isTrust]) (compileTrust_eq_ok compiledRule),
      source.default⟩
  · rename_i isDefaults
    rcases foldlM_compileDefault success source.default with
      ⟨sameRules, sameClassify, sameTrust, default⟩
    refine ⟨fun phase => ?_, ?_, ?_, default⟩
    · rw [sameRules]
      exact same (source.rules phase) (by simp [isRule, isDefaults])
    · rw [sameClassify]
      exact same source.classify (by simp [isDefaults])
    · rw [sameTrust]
      exact same source.trust (by simp [isDefaults])
  case h_9 => cases success
  all_goals
    rename_i notEnforced
    cases success
    exact ⟨fun phase => same (source.rules phase) (by simp [isRule, notEnforced]),
      same source.classify (by simp [notEnforced]),
      same source.trust (by simp [notEnforced]), source.default⟩

theorem CompiledSource.run {file : String} {before nodes : List KdlNode}
    {compiled next : Compiled} (source : CompiledSource before compiled)
    (success : nodes.foldlM (compileNode file) compiled = .ok next) :
    CompiledSource (before ++ nodes) next := by
  induction nodes generalizing before compiled with
  | nil =>
    cases success
    rwa [List.append_nil]
  | cons node nodes induction =>
    rw [List.foldlM_cons] at success
    rcases ok_of_bind_ok success with ⟨middle, stepped, rest⟩
    have continued := induction (source.step stepped) rest
    rwa [List.append_assoc, List.singleton_append] at continued

theorem CompiledSource.files [KdlParser] {before : List KdlNode}
    {files : List (String × String)} {compiled next : Compiled}
    (source : CompiledSource before compiled)
    (success : files.foldlM compileFile compiled = .ok next) :
    CompiledSource (before ++ sourceNodes files) next := by
  induction files generalizing before compiled with
  | nil =>
    cases success
    rwa [sourceNodes, List.flatMap_nil, List.append_nil]
  | cons file files induction =>
    rw [List.foldlM_cons] at success
    rcases ok_of_bind_ok success with ⟨middle, stepped, rest⟩
    unfold compileFile at stepped
    split at stepped
    · cases stepped
    · rename_i nodes parsed
      have continued := induction (source.run stepped) rest
      rw [List.append_assoc] at continued
      have unfolded : sourceNodes (file :: files) = nodes ++ sourceNodes files := by
        simp [sourceNodes, parsed, Except.toOption]
      rwa [unfolded]

theorem compile_source [KdlParser] {files : List (String × String)} {compiled : Compiled}
    (success : compile files = .ok compiled) :
    CompiledSource (sourceNodes files) compiled := by
  have start : CompiledSource [] ⟨Phases.empty, Classifier.private, []⟩ := by
    refine ⟨fun phase => ?_, .nil, .nil, by simp [Classifier.private]⟩
    cases phase <;> exact .nil
  exact start.files success

theorem classifyRule_withinLimits_iff {node : KdlNode} {rule : ClassifyRule}
    (source : MatchersFrom node rule.matchers)
    (short : (encodeClassifyRule rule).length < 2 ^ 64) :
    rule.WithinLimits ↔ MatcherSizes node := by
  rw [encodeClassifyRule_eq] at short
  have isField : ("matchers", some (encodeMatchers rule.matchers)) ∈
      ClassifyRuleFields.schema.rows rule.fields := by
    simp [ClassifyRuleFields.schema, Schema.rows, ClassifyRule.fields]
  exact matchersFit_iff source (lt_of_le_of_lt (length_le_record isField) short)

theorem trustRule_withinLimits_iff {node : KdlNode} {rule : TrustRule}
    (source : rule.trust ≠ .human ∧ MatchersFrom node rule.matchers)
    (short : (encodeTrustRule rule).length < 2 ^ 64) :
    rule.WithinLimits ↔ MatcherSizes node := by
  rw [encodeTrustRule_eq] at short
  have isField : ("matchers", some (encodeMatchers rule.matchers)) ∈
      TrustRuleFields.schema.rows rule.fields := by
    simp [TrustRuleFields.schema, Schema.rows, TrustRule.fields]
  rw [← matchersFit_iff source.2 (lt_of_le_of_lt (length_le_record isField) short)]
  exact ⟨fun limits => limits.matchers, fun matchers => ⟨source.1, matchers⟩⟩

/-- A compiled classifier is within the decoder's limits when its source is. -/
theorem CompiledSource.classifier_iff {nodes : List KdlNode} {compiled : Compiled}
    (source : CompiledSource nodes compiled)
    (short : (encodeClassifier compiled.classifier).length < 2 ^ 64) :
    compiled.classifier.WithinLimits ↔
      ((nodes.filter (·.name = "classify")).length ≤ maxRules ∧
        ∀ node ∈ nodes.filter (·.name = "classify"), MatcherSizes node) ∧
      (nodes.filter (·.name = "trust")).length ≤ maxRules ∧
        ∀ node ∈ nodes.filter (·.name = "trust"), MatcherSizes node := by
  rw [encodeClassifier_eq] at short
  have shortClassify : (arrayOf encodeClassifyRule compiled.classifier.classify).length <
      2 ^ 64 := by
    have isField : ("classify",
        some (arrayOf encodeClassifyRule compiled.classifier.classify)) ∈
        ClassifierFields.schema.rows compiled.classifier.fields := by
      simp [ClassifierFields.schema, Schema.rows, Classifier.fields]
    exact lt_of_le_of_lt (length_le_record isField) short
  have shortTrust : (arrayOf encodeTrustRule compiled.classifier.trust).length <
      2 ^ 64 := by
    have isField : ("trust", some (arrayOf encodeTrustRule compiled.classifier.trust)) ∈
        ClassifierFields.schema.rows compiled.classifier.fields := by
      simp [ClassifierFields.schema, Schema.rows, Classifier.fields]
    exact lt_of_le_of_lt (length_le_record isField) short
  have classify := forall₂_forall_iff source.classify fun node rule member made =>
    (classifyRule_withinLimits_iff made
      (lt_of_le_of_lt (length_le_arrayOf member) shortClassify)).symm
  have trust := forall₂_forall_iff source.trust fun node rule member made =>
    (trustRule_withinLimits_iff made
      (lt_of_le_of_lt (length_le_arrayOf member) shortTrust)).symm
  rw [classify, trust, source.classify.length_eq, source.trust.length_eq]
  exact ⟨fun limits => ⟨limits.classify, limits.trust⟩,
    fun sizes => ⟨source.default, sizes.1, sizes.2⟩⟩

/-- A compiled table is within the decoder's limits when its source is. -/
theorem CompiledSource.withinLimits_iff {nodes : List KdlNode} {compiled : Compiled}
    (source : CompiledSource nodes compiled) (version : UInt64)
    (short : (table compiled version).encode.length < 2 ^ 64) :
    (table compiled version).WithinLimits ↔ SourceSizes nodes := by
  rw [Table.encode_eq] at short
  have within : ∀ name value,
      (name, some value) ∈ TableFields.schema.rows (table compiled version).fields →
      value.length < 2 ^ 64 :=
    fun name value member => lt_of_le_of_lt (length_le_record member) short
  simp only [TableFields.schema, Schema.rows, Table.fields, table, List.map_cons,
    List.map_nil, List.mem_cons, Prod.mk.injEq, Option.map_some] at within
  have shortPhase : ∀ phase, (encodePhase (rulesOf compiled.rules phase)).length < 2 ^ 64 := by
    intro phase
    cases phase with
    | deny => exact within "deny" _ (by simp [rulesOf])
    | prompt => exact within "prompt" _ (by simp [rulesOf])
    | defer => exact within "defer" _ (by simp [rulesOf])
    | allow => exact within "allow" _ (by simp [rulesOf])
  have phase : ∀ phase, PhaseWithinLimits (rulesOf compiled.rules phase) ↔
      (nodes.filter (isRule phase)).length ≤ maxRules ∧
        ∀ node ∈ nodes.filter (isRule phase), RuleSizes node := by
    intro phase
    rw [PhaseWithinLimits, ← (source.rules phase).length_eq,
      forall₂_forall_iff (source.rules phase) fun node rule member made =>
        (made.withinLimits_iff
          (lt_of_le_of_lt (length_le_arrayOf member) (shortPhase phase))).symm]
  have classifier := source.classifier_iff (within "classifier" _ (by simp))
  constructor
  · intro limits
    have sizes := classifier.mp limits.classifier
    refine ⟨fun named => ?_, sizes.1, sizes.2⟩
    cases named with
    | deny => exact (phase .deny).mp limits.deny
    | prompt => exact (phase .prompt).mp limits.prompt
    | defer => exact (phase .defer).mp limits.defer
    | allow => exact (phase .allow).mp limits.allow
  · intro sizes
    exact ⟨(phase .deny).mpr (sizes.rules .deny), (phase .prompt).mpr (sizes.rules .prompt),
      (phase .defer).mpr (sizes.rules .defer), (phase .allow).mpr (sizes.rules .allow),
      classifier.mpr ⟨sizes.classify, sizes.trust⟩⟩

theorem pushed_eq_some {table : Table} {bytes : Bytes} (isPushed : pushed table = some bytes) :
    bytes = table.encode ∧ table.encode.length < 2 ^ 64 := by
  unfold pushed at isPushed
  split at isPushed
  · cases isPushed
  · rename_i fits
    cases isPushed
    simp only [maxMessage] at fits
    exact ⟨rfl, by omega⟩

/-- The compositor takes the pushed bytes for a table that decides as the
compiled one does exactly when the source keeps to the decoder's sizes. -/
theorem pushed_table_agrees_iff [KdlParser] {files : List (String × String)}
    {compiled : Compiled} (accepted : compile files = .ok compiled) {version : UInt64}
    {bytes : Bytes} (isPushed : pushed (table compiled version) = some bytes) :
    (∃ decoded, Table.decode bytes = .ok decoded ∧
      ∀ ctx, check decoded ctx = check (table compiled version) ctx) ↔
      SourceSizes (sourceNodes files) := by
  rcases pushed_eq_some isPushed with ⟨rfl, short⟩
  rw [← (compile_source accepted).withinLimits_iff version short]
  constructor
  · rintro ⟨decoded, success, -⟩
    exact ((Table.decode_encode_eq_ok short).mp success).2
  · intro limits
    exact ⟨_, (Table.decode_encode_eq_ok short).mpr ⟨rfl, limits⟩, fun ctx => rfl⟩

end Source

section Sample

local instance : RegexEngine := wordEngine

@[reducible] def parserOf (text : String) (nodes : List KdlNode) : KdlParser where
  parse source := if source = text then .ok nodes else .error "unexpected text"

def argument (text : String) : KdlEntry := ⟨none, .string text⟩

def allowText : String := "rule \"default-allow\" allow \x7b capability \"*\"; \x7d"

def allowNodes : List KdlNode :=
  [⟨"rule", [argument "default-allow", argument "allow"],
    some [⟨"capability", [argument "*"], none⟩]⟩]

def allowCompiled : Compiled where
  rules := { Phases.empty with allow := [⟨"default-allow", [.capability [.new "*"]], []⟩] }
  classifier := Classifier.private
  notEnforced := []

section

local instance : KdlParser := parserOf allowText allowNodes

theorem pushed_table_agrees_iff_allow :
    (∃ decoded, Table.decode (table allowCompiled 1).encode = .ok decoded ∧
      ∀ ctx, check decoded ctx = check (table allowCompiled 1) ctx) ↔
      SourceSizes (sourceNodes [("policy.kdl", allowText)]) := by
  have accepted : compile [("policy.kdl", allowText)] = .ok allowCompiled := by
    decide +kernel
  have isPushed : pushed (table allowCompiled 1) = some (table allowCompiled 1).encode := by
    decide +kernel
  exact pushed_table_agrees_iff accepted isPushed

end

/-- A predicate with one value more than the decoder reads. -/
def wideText : String :=
  "rule \"wide\" deny \x7b capability" ++ String.join (List.replicate 257 " \"x\"") ++
    "; \x7d"

def wideNodes : List KdlNode :=
  [⟨"rule", [argument "wide", argument "deny"],
    some [⟨"capability", List.replicate 257 (argument "x"), none⟩]⟩]

def wideCompiled : Compiled where
  rules := { Phases.empty with
    deny := [⟨"wide", [.capability (List.replicate 257 (.new "x"))], []⟩] }
  classifier := Classifier.private
  notEnforced := []

section

local instance : KdlParser := parserOf wideText wideNodes

/-- Compiled and pushed, and refused by the compositor. -/
theorem wide_predicate_refused :
    compile [("policy.kdl", wideText)] = .ok wideCompiled ∧
      pushed (table wideCompiled 1) = some (table wideCompiled 1).encode ∧
      ¬∃ decoded, Table.decode (table wideCompiled 1).encode = .ok decoded ∧
        ∀ ctx, check decoded ctx = check (table wideCompiled 1) ctx := by
  have isPushed : pushed (table wideCompiled 1) = some (table wideCompiled 1).encode := by
    decide +kernel
  have tooWide : ¬(table wideCompiled 1).WithinLimits := by
    decide +kernel
  refine ⟨by decide +kernel, isPushed, ?_⟩
  rintro ⟨decoded, success, -⟩
  have short := (pushed_eq_some isPushed).2
  exact tooWide ((Table.decode_encode_eq_ok short).mp success).2

end

end Sample

end EclipseOS.Policyd
