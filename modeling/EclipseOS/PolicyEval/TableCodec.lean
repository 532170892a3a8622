import EclipseOS.PolicyEval.PredCodec

/-! # The table codec

`decode` accepts exactly the bytes `encode` writes for a table within the
decoder's limits. -/

namespace EclipseOS.PolicyEval

open Foundation Cbor

section Codec

variable [RegexEngine] {depth : Nat} {encoding : Bytes}

/-! ## Rules -/

namespace UnlessFields

omit [RegexEngine] in
instance local_read (key : String) (fields : UnlessFields) : Local (read key fields) := by
  unfold read
  split <;> infer_instance

def schema : Schema UnlessFields :=
  [("capability", fun fields => fields.capability.map Writer.text),
    ("unattended", fun fields => fields.unattended.map Writer.bool)]

def Fit (fields : UnlessFields) : Prop := ∀ text ∈ fields.capability, TextFits text

omit [RegexEngine] in
theorem schema_ascend : NamesAscend (schema.map Prod.fst) := by decide

omit [RegexEngine] in
theorem accepts_fields {fields : UnlessFields} :
    Accepts (readMap ⟨none, none⟩ read) depth fields encoding ↔
      encoding = mapBytes (presentRows (schema.rows fields)) ∧
        depth < maxMapDepth ∧ fields.Fit := by
  apply accepts_record schema_ascend (by decide)
  · intro name before after value accepts
    unfold read at accepts
    split at accepts
    · obtain ⟨text, read, rfl⟩ := accepts_store.mp accepts
      obtain ⟨rfl, textFits⟩ := accepts_text.mp read
      exact ⟨by simp [schema, Schema.Stores], fun _ => by simpa [Fit]⟩
    · obtain ⟨flag, read, rfl⟩ := accepts_store.mp accepts
      obtain rfl := accepts_bool.mp read
      exact ⟨by simp [schema, Schema.Stores], id⟩
    · exact absurd accepts not_accepts_throw
  · simp [schema]
  · simp [Fit]
  · rintro ⟨capability, unattended⟩ fit
    simp only [schema, Schema.rows, List.map_cons, List.map_nil]
    refine Rows.store (fun text => UnlessFields.mk text none) (fun text found =>
      accepts_store.mpr ⟨text, accepts_text.mpr ⟨rfl, fit text found⟩, rfl⟩) ?_
    refine Rows.store (fun flag => UnlessFields.mk capability flag) (fun flag _ =>
      accepts_store.mpr ⟨flag, accepts_bool.mpr rfl, rfl⟩) ?_
    exact .nil

end UnlessFields

def Unless.fields (clause : Unless) : UnlessFields := ⟨clause.capability, clause.unattended⟩

def Unless.Fit (clause : Unless) : Prop := TextFits clause.capability

omit [RegexEngine] in
instance (clause : Unless) : Decidable clause.Fit :=
  inferInstanceAs (Decidable (TextFits _))

omit [RegexEngine] in
theorem encodeUnless_eq (clause : Unless) :
    encodeUnless clause = mapBytes (presentRows (UnlessFields.schema.rows clause.fields)) := by
  simp only [encodeUnless, MapBuilder.new_eq_ofRows, MapBuilder.insert_ofRows,
    List.nil_append, List.cons_append]
  exact Schema.finish UnlessFields.schema_ascend (List.Perm.refl _)

omit [RegexEngine] in
theorem clause_eq_ok (fields : UnlessFields) (clause : Unless) :
    fields.clause = .ok clause ↔ fields = clause.fields := by
  rcases fields with ⟨_ | capability, _ | unattended⟩ <;>
  constructor <;> intro same <;> cases same <;> rfl

omit [RegexEngine] in
instance : Local decodeUnless := by
  unfold decodeUnless
  infer_instance

omit [RegexEngine] in
theorem accepts_decodeUnless (room : depth < maxMapDepth) {clause : Unless} :
    Accepts decodeUnless depth clause encoding ↔
      encoding = encodeUnless clause ∧ clause.Fit := by
  rw [decodeUnless, accepts_built clause_eq_ok, UnlessFields.accepts_fields,
    ← encodeUnless_eq, and_iff_right room]
  simp [UnlessFields.Fit, Unless.fields, Unless.Fit]

namespace RuleFields

instance local_read (key : String) (fields : RuleFields) : Local (read key fields) := by
  unfold read
  split <;> infer_instance

def schema : Schema RuleFields :=
  [("id", fun fields => fields.id.map Writer.text),
    ("preds", fun fields => fields.preds.map (arrayOf encodePred)),
    ("unless", fun fields => fields.«unless».map (arrayOf encodeUnless))]

structure Fit (fields : RuleFields) : Prop where
  id : ∀ id ∈ fields.id, TextFits id
  preds : ∀ preds ∈ fields.preds, preds.length ≤ maxItems ∧ ∀ pred ∈ preds, pred.Fit
  «unless» : ∀ clauses ∈ fields.«unless»,
    clauses.length ≤ maxItems ∧ ∀ clause ∈ clauses, clause.Fit

theorem schema_ascend : NamesAscend (schema.map Prod.fst) := by
  show NamesAscend ["id", "preds", "unless"]
  decide

theorem accepts_preds (room : depth < maxMapDepth) {preds : List Pred} :
    Accepts (arrayWithin 0 maxItems decodePred) depth preds encoding ↔
      encoding = arrayOf encodePred preds ∧ preds.length ≤ maxItems ∧
        ∀ pred ∈ preds, pred.Fit := by
  rw [accepts_arrayWithin (fun _ _ => accepts_decodePred room) (by decide)]
  simp

omit [RegexEngine] in
theorem accepts_unless (room : depth < maxMapDepth) {clauses : List Unless} :
    Accepts (arrayWithin 0 maxItems decodeUnless) depth clauses encoding ↔
      encoding = arrayOf encodeUnless clauses ∧ clauses.length ≤ maxItems ∧
        ∀ clause ∈ clauses, clause.Fit := by
  rw [accepts_arrayWithin (fun _ _ => accepts_decodeUnless room) (by decide)]
  simp

theorem accepts_fields (room : depth + 1 < maxMapDepth) {fields : RuleFields} :
    Accepts (readMap ⟨none, none, none⟩ read) depth fields encoding ↔
      encoding = mapBytes (presentRows (schema.rows fields)) ∧
        depth < maxMapDepth ∧ fields.Fit := by
  apply accepts_record schema_ascend
  · show NamesFit ["id", "preds", "unless"]
    decide
  · intro name before after value accepts
    unfold read at accepts
    split at accepts
    · obtain ⟨text, read, rfl⟩ := accepts_store.mp accepts
      obtain ⟨rfl, textFits⟩ := accepts_text.mp read
      exact ⟨by simp [schema, Schema.Stores], fun fit => { fit with id := by simpa }⟩
    · obtain ⟨preds, read, rfl⟩ := accepts_store.mp accepts
      obtain ⟨rfl, predsFit⟩ := (accepts_preds room).mp read
      exact ⟨by simp [schema, Schema.Stores], fun fit => { fit with preds := by simpa }⟩
    · obtain ⟨clauses, read, rfl⟩ := accepts_store.mp accepts
      obtain ⟨rfl, clausesFit⟩ := (accepts_unless room).mp read
      exact ⟨by simp [schema, Schema.Stores], fun fit => { fit with «unless» := by simpa }⟩
    · exact absurd accepts not_accepts_throw
  · simp [schema]
  · constructor <;> simp
  · rintro ⟨id, preds, clauses⟩ fit
    simp only [schema, Schema.rows, List.map_cons, List.map_nil]
    refine Rows.store (fun id => RuleFields.mk id none none) (fun id found =>
      accepts_store.mpr ⟨id, accepts_text.mpr ⟨rfl, fit.id id found⟩, rfl⟩) ?_
    refine Rows.store (fun preds => RuleFields.mk id preds none) (fun preds found =>
      accepts_store.mpr ⟨preds, (accepts_preds room).mpr ⟨rfl, fit.preds preds found⟩,
        rfl⟩) ?_
    refine Rows.store (fun clauses => RuleFields.mk id preds clauses) (fun clauses found =>
      accepts_store.mpr ⟨clauses, (accepts_unless room).mpr
        ⟨rfl, fit.«unless» clauses found⟩, rfl⟩) ?_
    exact .nil

end RuleFields

def CompiledRule.fields (rule : CompiledRule) : RuleFields :=
  ⟨rule.id, rule.preds, rule.«unless»⟩

structure CompiledRule.WithinLimits (rule : CompiledRule) : Prop where
  id : rule.id ≠ "" ∧ TextFits rule.id
  preds : rule.preds.length ≤ maxItems ∧ ∀ pred ∈ rule.preds, pred.Fit
  «unless» : rule.«unless».length ≤ maxItems ∧ ∀ clause ∈ rule.«unless», clause.Fit

instance (rule : CompiledRule) : Decidable rule.WithinLimits :=
  decidable_of_iff ((rule.id ≠ "" ∧ TextFits rule.id) ∧
    (rule.preds.length ≤ maxItems ∧ ∀ pred ∈ rule.preds, pred.Fit) ∧
    rule.«unless».length ≤ maxItems ∧ ∀ clause ∈ rule.«unless», clause.Fit)
    ⟨fun limits => ⟨limits.1, limits.2.1, limits.2.2⟩,
      fun limits => ⟨limits.id, limits.preds, limits.«unless»⟩⟩

theorem encodeRule_eq (rule : CompiledRule) :
    encodeRule rule = mapBytes (presentRows (RuleFields.schema.rows rule.fields)) := by
  simp only [encodeRule, MapBuilder.new_eq_ofRows, MapBuilder.insert_ofRows,
    List.nil_append, List.cons_append]
  exact Schema.finish RuleFields.schema_ascend (List.Perm.refl _)

theorem rule_eq_ok (fields : RuleFields) (rule : CompiledRule) :
    fields.rule = .ok rule ↔ fields = rule.fields ∧ rule.id ≠ "" := by
  constructor
  · intro success
    rcases ok_of_bind_ok success with ⟨id, hasId, checked⟩
    split at checked
    · cases checked
    rename_i named
    rcases ok_of_bind_ok checked with ⟨preds, hasPreds, continued⟩
    rcases ok_of_bind_ok continued with ⟨clauses, hasUnless, result⟩
    cases result
    rw [need_eq_ok] at hasId hasPreds hasUnless
    exact ⟨by rw [CompiledRule.fields, ← hasId, ← hasPreds, ← hasUnless], named⟩
  · rintro ⟨rfl, named⟩
    change (if rule.id = "" then _ else _) = _
    rw [if_neg named]
    rfl

instance : Local decodeRule := by
  unfold decodeRule
  infer_instance

theorem accepts_decodeRule (room : depth + 1 < maxMapDepth) {rule : CompiledRule} :
    Accepts decodeRule depth rule encoding ↔
      encoding = encodeRule rule ∧ rule.WithinLimits := by
  rw [decodeRule, accepts_checked rule_eq_ok, RuleFields.accepts_fields room,
    ← encodeRule_eq, and_iff_right (Nat.lt_of_succ_lt room), and_assoc]
  refine and_congr_right fun _ => ⟨?_, ?_⟩
  · rintro ⟨fit, named⟩
    exact ⟨⟨named, fit.id _ rfl⟩, fit.preds _ rfl, fit.«unless» _ rfl⟩
  · rintro ⟨⟨named, idFits⟩, predsFit, clausesFit⟩
    refine ⟨⟨?_, ?_, ?_⟩, named⟩ <;> simpa [CompiledRule.fields]

instance : Local decodePhase := by
  unfold decodePhase
  infer_instance

def PhaseWithinLimits (rules : List CompiledRule) : Prop :=
  rules.length ≤ maxRules ∧ ∀ rule ∈ rules, rule.WithinLimits

instance (rules : List CompiledRule) : Decidable (PhaseWithinLimits rules) :=
  inferInstanceAs (Decidable (_ ∧ _))

theorem accepts_decodePhase (room : depth + 1 < maxMapDepth) {rules : List CompiledRule} :
    Accepts decodePhase depth rules encoding ↔
      encoding = encodePhase rules ∧ PhaseWithinLimits rules := by
  rw [decodePhase, accepts_arrayWithin (fun _ _ => accepts_decodeRule room) (by decide)]
  simp [encodePhase, PhaseWithinLimits]

/-! ## The classifier -/

namespace MatcherFields

omit [RegexEngine] in
instance local_read (key : String) (fields : MatcherFields) : Local (read key fields) := by
  unfold read
  split <;> infer_instance

def schema : Schema MatcherFields :=
  [("a", fun fields => fields.a.map texts), ("b", fun fields => fields.b.map Writer.bool),
    ("p", fun fields => fields.name.map Writer.text),
    ("re", fun fields => fields.re.map Writer.text)]

structure Fit (fields : MatcherFields) : Prop where
  name : ∀ name ∈ fields.name, TextFits name
  a : ∀ items ∈ fields.a, TextsFit items
  re : ∀ source ∈ fields.re, TextFits source

omit [RegexEngine] in
instance (fields : MatcherFields) : Decidable fields.Fit :=
  decidable_of_iff ((∀ name ∈ fields.name, TextFits name) ∧
    (∀ items ∈ fields.a, TextsFit items) ∧ ∀ source ∈ fields.re, TextFits source)
    ⟨fun fit => ⟨fit.1, fit.2.1, fit.2.2⟩, fun fit => ⟨fit.name, fit.a, fit.re⟩⟩

omit [RegexEngine] in
theorem schema_ascend : NamesAscend (schema.map Prod.fst) := by decide

omit [RegexEngine] in
theorem accepts_fields {fields : MatcherFields} :
    Accepts (readMap ⟨none, none, none, none⟩ read) depth fields encoding ↔
      encoding = mapBytes (presentRows (schema.rows fields)) ∧
        depth < maxMapDepth ∧ fields.Fit := by
  apply accepts_record schema_ascend (by decide)
  · intro name before after value accepts
    unfold read at accepts
    split at accepts
    · obtain ⟨items, read, rfl⟩ := accepts_store.mp accepts
      obtain ⟨rfl, itemsFit⟩ := accepts_readTexts.mp read
      exact ⟨by simp [schema, Schema.Stores], fun fit => { fit with a := by simpa }⟩
    · obtain ⟨flag, read, rfl⟩ := accepts_store.mp accepts
      obtain rfl := accepts_bool.mp read
      exact ⟨by simp [schema, Schema.Stores], fun fit => { fit with }⟩
    · obtain ⟨text, read, rfl⟩ := accepts_store.mp accepts
      obtain ⟨rfl, textFits⟩ := accepts_text.mp read
      exact ⟨by simp [schema, Schema.Stores], fun fit => { fit with name := by simpa }⟩
    · obtain ⟨source, read, rfl⟩ := accepts_store.mp accepts
      obtain ⟨rfl, sourceFits⟩ := accepts_text.mp read
      exact ⟨by simp [schema, Schema.Stores], fun fit => { fit with re := by simpa }⟩
    · exact absurd accepts not_accepts_throw
  · simp [schema]
  · constructor <;> simp
  · rintro ⟨name, a, re, b⟩ fit
    simp only [schema, Schema.rows, List.map_cons, List.map_nil]
    refine Rows.store (fun a => MatcherFields.mk none a none none) (fun items found =>
      accepts_store.mpr ⟨items, accepts_readTexts.mpr ⟨rfl, fit.a items found⟩, rfl⟩) ?_
    refine Rows.store (fun b => MatcherFields.mk none a none b) (fun flag _ =>
      accepts_store.mpr ⟨flag, accepts_bool.mpr rfl, rfl⟩) ?_
    refine Rows.store (fun name => MatcherFields.mk name a none b) (fun text found =>
      accepts_store.mpr ⟨text, accepts_text.mpr ⟨rfl, fit.name text found⟩, rfl⟩) ?_
    refine Rows.store (fun re => MatcherFields.mk name a re b) (fun source found =>
      accepts_store.mpr ⟨source, accepts_text.mpr ⟨rfl, fit.re source found⟩, rfl⟩) ?_
    exact .nil

end MatcherFields

def Matcher.fields : Matcher → MatcherFields
  | .appId globs => ⟨"app_id", globs.map Glob.asStr, none, none⟩
  | .title regex => ⟨"title", none, regex.source, none⟩
  | .url globs => ⟨"url", globs.map Glob.asStr, none, none⟩
  | .output globs => ⟨"output", globs.map Glob.asStr, none, none⟩
  | .launchedBy globs => ⟨"launched_by", globs.map Glob.asStr, none, none⟩
  | .xwayland value => ⟨"xwayland", none, none, value⟩

/-- Every text fits, and a list has one item at least and `maxItems` at most. -/
def Matcher.Fit (matcher : Matcher) : Prop := matcher.fields.Fit

instance (matcher : Matcher) : Decidable matcher.Fit :=
  inferInstanceAs (Decidable matcher.fields.Fit)

theorem encodeMatcher_eq (matcher : Matcher) :
    encodeMatcher matcher =
      mapBytes (presentRows (MatcherFields.schema.rows matcher.fields)) := by
  cases matcher <;>
  simp only [encodeMatcher, Matcher.entry, MapBuilder.new_eq_ofRows,
    MapBuilder.insert_ofRows, List.nil_append, List.cons_append] <;>
  first
    | exact Schema.finish MatcherFields.schema_ascend (List.Perm.swap _ _ _)
    | exact Schema.finish MatcherFields.schema_ascend (List.Perm.refl _)

private theorem matcher_named {matcher : Matcher} {name : String}
    (hasName : matcher.fields.name = some name) :
    matcher.fields.named name = .ok matcher := by
  cases matcher <;> cases hasName <;>
  first
    | exact map_eq_ok.mpr ⟨_, needGlobs_eq_ok.mpr rfl, rfl⟩
    | exact map_eq_ok.mpr ⟨_, needRegex_eq_ok.mpr rfl, rfl⟩
    | exact map_eq_ok.mpr ⟨_, need_eq_ok.mpr rfl, rfl⟩

theorem matcher_eq_ok (fields : MatcherFields) (matcher : Matcher) :
    fields.matcher = .ok matcher ↔ fields = matcher.fields := by
  constructor
  · intro success
    unfold MatcherFields.matcher at success
    split at success
    · cases success
    rename_i single
    rw [not_not] at single
    rcases ok_of_bind_ok success with ⟨name, named, built⟩
    rw [need_eq_ok] at named
    unfold MatcherFields.named at built
    rcases fields with ⟨_, _ | a, _ | re, _ | b⟩ <;> cases single <;> cases named <;>
    split at built <;>
    first
      | cases built
        done
      | (obtain ⟨value, read, rfl⟩ := map_eq_ok.mp built
         first
           | cases needGlobs_eq_ok.mp read
             rfl
           | cases needRegex_eq_ok.mp read
             rfl
           | cases need_eq_ok.mp read
             rfl)
  · rintro rfl
    obtain ⟨name, hasName⟩ : ∃ name, matcher.fields.name = some name := by
      cases matcher <;> exact ⟨_, rfl⟩
    have unfolded : matcher.fields.matcher = need matcher.fields.name >>= fun name =>
        matcher.fields.named name := by
      cases matcher <;> rfl
    rw [unfolded, need_eq_ok.mpr hasName]
    exact matcher_named hasName

instance : Local decodeMatcher := by
  unfold decodeMatcher
  infer_instance

theorem accepts_decodeMatcher (room : depth < maxMapDepth) {matcher : Matcher} :
    Accepts decodeMatcher depth matcher encoding ↔
      encoding = encodeMatcher matcher ∧ matcher.Fit := by
  rw [decodeMatcher, accepts_built matcher_eq_ok, MatcherFields.accepts_fields,
    ← encodeMatcher_eq, and_iff_right room]
  rfl

instance : Local decodeMatchers := by
  unfold decodeMatchers
  infer_instance

def MatchersFit (matchers : List Matcher) : Prop :=
  1 ≤ matchers.length ∧ matchers.length ≤ maxItems ∧ ∀ matcher ∈ matchers, matcher.Fit

instance (matchers : List Matcher) : Decidable (MatchersFit matchers) :=
  inferInstanceAs (Decidable (_ ∧ _))

theorem accepts_decodeMatchers (room : depth < maxMapDepth) {matchers : List Matcher} :
    Accepts decodeMatchers depth matchers encoding ↔
      encoding = encodeMatchers matchers ∧ MatchersFit matchers :=
  accepts_arrayWithin (fun _ _ => accepts_decodeMatcher room) (by decide)

omit [RegexEngine] in
instance local_readNamed {α : Type} (named : String → Option α) :
    Local (readNamed named) := by
  unfold readNamed
  infer_instance

omit [RegexEngine] in
theorem accepts_readNamed {α : Type} {named : String → Option α} {write : α → String}
    {passes : α → Prop} (fits : ∀ value, TextFits (write value))
    (inverse : ∀ text value, named text = some value ↔ text = write value ∧ passes value)
    {value : α} :
    Accepts (readNamed named) depth value encoding ↔
      encoding = Writer.text (write value) ∧ passes value := by
  simp only [readNamed, accepts_bind, accepts_text, accepts_okOr, inverse]
  constructor
  · rintro ⟨_, _, _, rfl, ⟨rfl, -⟩, ⟨rfl, passed⟩, rfl⟩
    exact ⟨List.append_nil _, passed⟩
  · rintro ⟨rfl, passed⟩
    exact ⟨_, _, [], (List.append_nil _).symm, ⟨rfl, fits value⟩, ⟨rfl, passed⟩, rfl⟩

omit [RegexEngine] in
theorem classStr_fits (found : Class) : TextFits (classStr found) := by
  cases found <;> (show List.length _ < _; decide)

omit [RegexEngine] in
theorem accepts_readClass {found : Class} :
    Accepts (readNamed classOf) depth found encoding ↔
      encoding = Writer.text (classStr found) := by
  have inverse : ∀ text value, classOf text = some value ↔
      text = classStr value ∧ True := by simp [classOf_eq_some]
  rw [accepts_readNamed classStr_fits inverse, and_true]

omit [RegexEngine] in
theorem accepts_readDefault {found : Class} :
    Accepts (readNamed defaultClass) depth found encoding ↔
      encoding = Writer.text (classStr found) ∧ found ≠ .«public» := by
  have inverse : ∀ text value, defaultClass text = some value ↔
      text = classStr value ∧ value ≠ .«public» := by
    simp [defaultClass, Option.filter_eq_some_iff, classOf_eq_some]
  exact accepts_readNamed classStr_fits inverse

omit [RegexEngine] in
theorem accepts_readTrust {found : Trust} :
    Accepts (readNamed trustOf) depth found encoding ↔
      encoding = Writer.text (trustStr found) := by
  have inverse : ∀ text value, trustOf text = some value ↔
      text = trustStr value ∧ True := by simp [trustOf_eq_some]
  have fits : ∀ found, TextFits (trustStr found) := by
    intro found
    cases found <;> (show List.length _ < _; decide)
  rw [accepts_readNamed fits inverse, and_true]

namespace TrustRuleFields

instance local_read (key : String) (fields : TrustRuleFields) :
    Local (read key fields) := by
  unfold read
  split <;> infer_instance

def schema : Schema TrustRuleFields :=
  [("trust", fun fields => fields.trust.map fun trust => Writer.text (trustStr trust)),
    ("matchers", fun fields => fields.matchers.map encodeMatchers)]

def Fit (fields : TrustRuleFields) : Prop :=
  ∀ matchers ∈ fields.matchers, MatchersFit matchers

theorem schema_ascend : NamesAscend (schema.map Prod.fst) := by
  show NamesAscend ["trust", "matchers"]
  decide

theorem accepts_fields (room : depth + 1 < maxMapDepth) {fields : TrustRuleFields} :
    Accepts (readMap ⟨none, none⟩ read) depth fields encoding ↔
      encoding = mapBytes (presentRows (schema.rows fields)) ∧
        depth < maxMapDepth ∧ fields.Fit := by
  apply accepts_record schema_ascend
  · show NamesFit ["trust", "matchers"]
    decide
  · intro name before after value accepts
    unfold read at accepts
    split at accepts
    · obtain ⟨trust, read, rfl⟩ := accepts_store.mp accepts
      obtain rfl := accepts_readTrust.mp read
      exact ⟨by simp [schema, Schema.Stores], id⟩
    · obtain ⟨matchers, read, rfl⟩ := accepts_store.mp accepts
      obtain ⟨rfl, matchersFit⟩ := (accepts_decodeMatchers room).mp read
      exact ⟨by simp [schema, Schema.Stores], fun _ => by simpa [Fit]⟩
    · exact absurd accepts not_accepts_throw
  · simp [schema]
  · simp [Fit]
  · rintro ⟨trust, matchers⟩ fit
    simp only [schema, Schema.rows, List.map_cons, List.map_nil]
    refine Rows.store (fun trust => TrustRuleFields.mk trust none) (fun trust _ =>
      accepts_store.mpr ⟨trust, accepts_readTrust.mpr rfl, rfl⟩) ?_
    refine Rows.store (fun matchers => TrustRuleFields.mk trust matchers)
      (fun matchers found => accepts_store.mpr ⟨matchers,
        (accepts_decodeMatchers room).mpr ⟨rfl, fit matchers found⟩, rfl⟩) ?_
    exact .nil

end TrustRuleFields

def TrustRule.fields (rule : TrustRule) : TrustRuleFields := ⟨rule.trust, rule.matchers⟩

structure TrustRule.WithinLimits (rule : TrustRule) : Prop where
  trust : rule.trust ≠ .human
  matchers : MatchersFit rule.matchers

instance (rule : TrustRule) : Decidable rule.WithinLimits :=
  decidable_of_iff (rule.trust ≠ .human ∧ MatchersFit rule.matchers)
    ⟨fun limits => ⟨limits.1, limits.2⟩, fun limits => ⟨limits.trust, limits.matchers⟩⟩

theorem encodeTrustRule_eq (rule : TrustRule) :
    encodeTrustRule rule =
      mapBytes (presentRows (TrustRuleFields.schema.rows rule.fields)) := by
  simp only [encodeTrustRule, MapBuilder.new_eq_ofRows, MapBuilder.insert_ofRows,
    List.nil_append, List.cons_append]
  exact Schema.finish TrustRuleFields.schema_ascend (List.Perm.refl _)

theorem trustRule_eq_ok (fields : TrustRuleFields) (rule : TrustRule) :
    fields.rule = .ok rule ↔ fields = rule.fields ∧ rule.trust ≠ .human := by
  constructor
  · intro success
    rcases ok_of_bind_ok success with ⟨trust, hasTrust, checked⟩
    split at checked
    · cases checked
    rename_i allowed
    rcases ok_of_bind_ok checked with ⟨matchers, hasMatchers, result⟩
    cases result
    rw [need_eq_ok] at hasTrust hasMatchers
    exact ⟨by rw [TrustRule.fields, ← hasTrust, ← hasMatchers], allowed⟩
  · rintro ⟨rfl, allowed⟩
    change (if rule.trust = .human then _ else _) = _
    rw [if_neg allowed]
    rfl

instance : Local decodeTrustRule := by
  unfold decodeTrustRule
  infer_instance

theorem accepts_decodeTrustRule (room : depth + 1 < maxMapDepth) {rule : TrustRule} :
    Accepts decodeTrustRule depth rule encoding ↔
      encoding = encodeTrustRule rule ∧ rule.WithinLimits := by
  rw [decodeTrustRule, accepts_checked trustRule_eq_ok, TrustRuleFields.accepts_fields room,
    ← encodeTrustRule_eq, and_iff_right (Nat.lt_of_succ_lt room), and_assoc]
  refine and_congr_right fun _ => ⟨?_, ?_⟩
  · rintro ⟨fit, allowed⟩
    exact ⟨allowed, fit _ rfl⟩
  · rintro ⟨allowed, matchersFit⟩
    exact ⟨by simpa [TrustRule.fields, TrustRuleFields.Fit], allowed⟩

namespace ClassifyRuleFields

instance local_read (key : String) (fields : ClassifyRuleFields) :
    Local (read key fields) := by
  unfold read
  split <;> infer_instance

def schema : Schema ClassifyRuleFields :=
  [("class", fun fields => fields.class.map fun found => Writer.text (classStr found)),
    ("matchers", fun fields => fields.matchers.map encodeMatchers)]

def Fit (fields : ClassifyRuleFields) : Prop :=
  ∀ matchers ∈ fields.matchers, MatchersFit matchers

theorem schema_ascend : NamesAscend (schema.map Prod.fst) := by
  show NamesAscend ["class", "matchers"]
  decide

theorem accepts_fields (room : depth + 1 < maxMapDepth) {fields : ClassifyRuleFields} :
    Accepts (readMap ⟨none, none⟩ read) depth fields encoding ↔
      encoding = mapBytes (presentRows (schema.rows fields)) ∧
        depth < maxMapDepth ∧ fields.Fit := by
  apply accepts_record schema_ascend
  · show NamesFit ["class", "matchers"]
    decide
  · intro name before after value accepts
    unfold read at accepts
    split at accepts
    · obtain ⟨found, read, rfl⟩ := accepts_store.mp accepts
      obtain rfl := accepts_readClass.mp read
      exact ⟨by simp [schema, Schema.Stores], id⟩
    · obtain ⟨matchers, read, rfl⟩ := accepts_store.mp accepts
      obtain ⟨rfl, matchersFit⟩ := (accepts_decodeMatchers room).mp read
      exact ⟨by simp [schema, Schema.Stores], fun _ => by simpa [Fit]⟩
    · exact absurd accepts not_accepts_throw
  · simp [schema]
  · simp [Fit]
  · rintro ⟨found, matchers⟩ fit
    simp only [schema, Schema.rows, List.map_cons, List.map_nil]
    refine Rows.store (fun found => ClassifyRuleFields.mk found none) (fun found _ =>
      accepts_store.mpr ⟨found, accepts_readClass.mpr rfl, rfl⟩) ?_
    refine Rows.store (fun matchers => ClassifyRuleFields.mk found matchers)
      (fun matchers found => accepts_store.mpr ⟨matchers,
        (accepts_decodeMatchers room).mpr ⟨rfl, fit matchers found⟩, rfl⟩) ?_
    exact .nil

end ClassifyRuleFields

def ClassifyRule.fields (rule : ClassifyRule) : ClassifyRuleFields :=
  ⟨rule.class, rule.matchers⟩

def ClassifyRule.WithinLimits (rule : ClassifyRule) : Prop := MatchersFit rule.matchers

instance (rule : ClassifyRule) : Decidable rule.WithinLimits :=
  inferInstanceAs (Decidable (MatchersFit _))

theorem encodeClassifyRule_eq (rule : ClassifyRule) :
    encodeClassifyRule rule =
      mapBytes (presentRows (ClassifyRuleFields.schema.rows rule.fields)) := by
  simp only [encodeClassifyRule, MapBuilder.new_eq_ofRows, MapBuilder.insert_ofRows,
    List.nil_append, List.cons_append]
  exact Schema.finish ClassifyRuleFields.schema_ascend (List.Perm.refl _)

theorem classifyRule_eq_ok (fields : ClassifyRuleFields) (rule : ClassifyRule) :
    fields.rule = .ok rule ↔ fields = rule.fields := by
  rcases fields with ⟨_ | found, _ | matchers⟩ <;>
  constructor <;> intro same <;> cases same <;> rfl

instance : Local decodeClassifyRule := by
  unfold decodeClassifyRule
  infer_instance

theorem accepts_decodeClassifyRule (room : depth + 1 < maxMapDepth) {rule : ClassifyRule} :
    Accepts decodeClassifyRule depth rule encoding ↔
      encoding = encodeClassifyRule rule ∧ rule.WithinLimits := by
  rw [decodeClassifyRule, accepts_built classifyRule_eq_ok,
    ClassifyRuleFields.accepts_fields room, ← encodeClassifyRule_eq,
    and_iff_right (Nat.lt_of_succ_lt room)]
  simp [ClassifyRuleFields.Fit, ClassifyRule.fields, ClassifyRule.WithinLimits]

namespace ClassifierFields

instance local_read (key : String) (fields : ClassifierFields) :
    Local (read key fields) := by
  unfold read
  split <;> infer_instance

def schema : Schema ClassifierFields :=
  [("trust", fun fields => fields.trust.map (arrayOf encodeTrustRule)),
    ("default", fun fields => fields.default.map fun found => Writer.text (classStr found)),
    ("classify", fun fields => fields.classify.map (arrayOf encodeClassifyRule))]

structure Fit (fields : ClassifierFields) : Prop where
  default : ∀ found ∈ fields.default, found ≠ .«public»
  classify : ∀ rules ∈ fields.classify,
    rules.length ≤ maxRules ∧ ∀ rule ∈ rules, rule.WithinLimits
  trust : ∀ rules ∈ fields.trust,
    rules.length ≤ maxRules ∧ ∀ rule ∈ rules, rule.WithinLimits

theorem schema_ascend : NamesAscend (schema.map Prod.fst) := by
  show NamesAscend ["trust", "default", "classify"]
  decide

theorem accepts_trust (room : depth + 1 < maxMapDepth) {rules : List TrustRule} :
    Accepts (arrayWithin 0 maxRules decodeTrustRule) depth rules encoding ↔
      encoding = arrayOf encodeTrustRule rules ∧ rules.length ≤ maxRules ∧
        ∀ rule ∈ rules, rule.WithinLimits := by
  rw [accepts_arrayWithin (fun _ _ => accepts_decodeTrustRule room) (by decide)]
  simp

theorem accepts_classify (room : depth + 1 < maxMapDepth) {rules : List ClassifyRule} :
    Accepts (arrayWithin 0 maxRules decodeClassifyRule) depth rules encoding ↔
      encoding = arrayOf encodeClassifyRule rules ∧ rules.length ≤ maxRules ∧
        ∀ rule ∈ rules, rule.WithinLimits := by
  rw [accepts_arrayWithin (fun _ _ => accepts_decodeClassifyRule room) (by decide)]
  simp

theorem accepts_fields (room : depth + 2 < maxMapDepth) {fields : ClassifierFields} :
    Accepts (readMap ⟨none, none, none⟩ read) depth fields encoding ↔
      encoding = mapBytes (presentRows (schema.rows fields)) ∧
        depth < maxMapDepth ∧ fields.Fit := by
  apply accepts_record schema_ascend
  · show NamesFit ["trust", "default", "classify"]
    decide
  · intro name before after value accepts
    unfold read at accepts
    split at accepts
    · obtain ⟨rules, read, rfl⟩ := accepts_store.mp accepts
      obtain ⟨rfl, rulesFit⟩ := (accepts_trust room).mp read
      exact ⟨by simp [schema, Schema.Stores], fun fit => { fit with trust := by simpa }⟩
    · obtain ⟨found, read, rfl⟩ := accepts_store.mp accepts
      obtain ⟨rfl, allowed⟩ := accepts_readDefault.mp read
      exact ⟨by simp [schema, Schema.Stores], fun fit => { fit with default := by simpa }⟩
    · obtain ⟨rules, read, rfl⟩ := accepts_store.mp accepts
      obtain ⟨rfl, rulesFit⟩ := (accepts_classify room).mp read
      exact ⟨by simp [schema, Schema.Stores], fun fit => { fit with classify := by simpa }⟩
    · exact absurd accepts not_accepts_throw
  · simp [schema]
  · constructor <;> simp
  · rintro ⟨default, classify, trust⟩ fit
    simp only [schema, Schema.rows, List.map_cons, List.map_nil]
    refine Rows.store (fun trust => ClassifierFields.mk none none trust)
      (fun rules found => accepts_store.mpr ⟨rules,
        (accepts_trust room).mpr ⟨rfl, fit.trust rules found⟩, rfl⟩) ?_
    refine Rows.store (fun default => ClassifierFields.mk default none trust)
      (fun found isDefault => accepts_store.mpr ⟨found,
        accepts_readDefault.mpr ⟨rfl, fit.default found isDefault⟩, rfl⟩) ?_
    refine Rows.store (fun classify => ClassifierFields.mk default classify trust)
      (fun rules found => accepts_store.mpr ⟨rules,
        (accepts_classify room).mpr ⟨rfl, fit.classify rules found⟩, rfl⟩) ?_
    exact .nil

end ClassifierFields

def Classifier.fields (classifier : Classifier) : ClassifierFields :=
  ⟨classifier.default, classifier.classify, classifier.trust⟩

structure Classifier.WithinLimits (classifier : Classifier) : Prop where
  default : classifier.default ≠ .«public»
  classify : classifier.classify.length ≤ maxRules ∧
    ∀ rule ∈ classifier.classify, rule.WithinLimits
  trust : classifier.trust.length ≤ maxRules ∧
    ∀ rule ∈ classifier.trust, rule.WithinLimits

instance (classifier : Classifier) : Decidable classifier.WithinLimits :=
  decidable_of_iff (classifier.default ≠ .«public» ∧
    (classifier.classify.length ≤ maxRules ∧
      ∀ rule ∈ classifier.classify, rule.WithinLimits) ∧
    classifier.trust.length ≤ maxRules ∧ ∀ rule ∈ classifier.trust, rule.WithinLimits)
    ⟨fun limits => ⟨limits.1, limits.2.1, limits.2.2⟩,
      fun limits => ⟨limits.default, limits.classify, limits.trust⟩⟩

theorem encodeClassifier_eq (classifier : Classifier) :
    encodeClassifier classifier =
      mapBytes (presentRows (ClassifierFields.schema.rows classifier.fields)) := by
  simp only [encodeClassifier, MapBuilder.new_eq_ofRows, MapBuilder.insert_ofRows,
    List.nil_append, List.cons_append]
  exact Schema.finish ClassifierFields.schema_ascend (List.Perm.refl _)

theorem classifier_eq_ok (fields : ClassifierFields) (classifier : Classifier) :
    fields.classifier = .ok classifier ↔ fields = classifier.fields := by
  rcases fields with ⟨_ | default, _ | classify, _ | trust⟩ <;>
  constructor <;> intro same <;> cases same <;> rfl

instance : Local decodeClassifier := by
  unfold decodeClassifier
  infer_instance

theorem accepts_decodeClassifier (room : depth + 2 < maxMapDepth)
    {classifier : Classifier} :
    Accepts decodeClassifier depth classifier encoding ↔
      encoding = encodeClassifier classifier ∧ classifier.WithinLimits := by
  rw [decodeClassifier, accepts_built classifier_eq_ok,
    ClassifierFields.accepts_fields room, ← encodeClassifier_eq,
    and_iff_right (show depth < maxMapDepth by omega)]
  refine and_congr_right fun _ => ⟨?_, ?_⟩
  · rintro ⟨default, classify, trust⟩
    exact ⟨default _ rfl, classify _ rfl, trust _ rfl⟩
  · rintro ⟨default, classify, trust⟩
    constructor <;> simpa [Classifier.fields]

/-! ## The table -/

namespace TableFields

instance local_read (key : String) (fields : TableFields) : Local (read key fields) := by
  unfold read
  split <;> infer_instance

def schema : Schema TableFields :=
  [("v", fun fields => fields.v.map Writer.u64),
    ("deny", fun fields => fields.deny.map encodePhase),
    ("allow", fun fields => fields.allow.map encodePhase),
    ("defer", fun fields => fields.defer.map encodePhase),
    ("prompt", fun fields => fields.prompt.map encodePhase),
    ("version", fun fields => fields.version.map Writer.u64),
    ("classifier", fun fields => fields.classifier.map encodeClassifier)]

structure Fit (fields : TableFields) : Prop where
  deny : ∀ rules ∈ fields.deny, PhaseWithinLimits rules
  allow : ∀ rules ∈ fields.allow, PhaseWithinLimits rules
  defer : ∀ rules ∈ fields.defer, PhaseWithinLimits rules
  prompt : ∀ rules ∈ fields.prompt, PhaseWithinLimits rules
  classifier : ∀ classifier ∈ fields.classifier, classifier.WithinLimits

theorem schema_ascend : NamesAscend (schema.map Prod.fst) := by
  show NamesAscend ["v", "deny", "allow", "defer", "prompt", "version", "classifier"]
  decide

omit [RegexEngine] in
private theorem roomForRules : 1 + 1 < maxMapDepth := by decide

omit [RegexEngine] in
private theorem roomForClassifier : 1 + 2 < maxMapDepth := by decide

theorem accepts_fields {fields : TableFields} :
    Accepts (readMap new read) 0 fields encoding ↔
      encoding = mapBytes (presentRows (schema.rows fields)) ∧
        0 < maxMapDepth ∧ fields.Fit := by
  apply accepts_record schema_ascend
  · show NamesFit ["v", "deny", "allow", "defer", "prompt", "version", "classifier"]
    decide
  · intro name before after value accepts
    unfold read at accepts
    split at accepts
    · obtain ⟨version, read, rfl⟩ := accepts_store.mp accepts
      obtain rfl := accepts_u64.mp read
      exact ⟨by simp [schema, Schema.Stores], fun fit => { fit with }⟩
    · obtain ⟨rules, read, rfl⟩ := accepts_store.mp accepts
      obtain ⟨rfl, rulesFit⟩ := (accepts_decodePhase roomForRules).mp read
      exact ⟨by simp [schema, Schema.Stores], fun fit => { fit with deny := by simpa }⟩
    · obtain ⟨rules, read, rfl⟩ := accepts_store.mp accepts
      obtain ⟨rfl, rulesFit⟩ := (accepts_decodePhase roomForRules).mp read
      exact ⟨by simp [schema, Schema.Stores], fun fit => { fit with allow := by simpa }⟩
    · obtain ⟨rules, read, rfl⟩ := accepts_store.mp accepts
      obtain ⟨rfl, rulesFit⟩ := (accepts_decodePhase roomForRules).mp read
      exact ⟨by simp [schema, Schema.Stores], fun fit => { fit with defer := by simpa }⟩
    · obtain ⟨rules, read, rfl⟩ := accepts_store.mp accepts
      obtain ⟨rfl, rulesFit⟩ := (accepts_decodePhase roomForRules).mp read
      exact ⟨by simp [schema, Schema.Stores], fun fit => { fit with prompt := by simpa }⟩
    · obtain ⟨version, read, rfl⟩ := accepts_store.mp accepts
      obtain rfl := accepts_u64.mp read
      exact ⟨by simp [schema, Schema.Stores], fun fit => { fit with }⟩
    · obtain ⟨classifier, read, rfl⟩ := accepts_store.mp accepts
      obtain ⟨rfl, fits⟩ := (accepts_decodeClassifier roomForClassifier).mp read
      exact ⟨by simp [schema, Schema.Stores], fun fit => { fit with classifier := by simpa }⟩
    · exact absurd accepts not_accepts_throw
  · simp [schema, new]
  · constructor <;> simp [new]
  · rintro ⟨v, version, classifier, deny, prompt, defer, allow⟩ fit
    simp only [schema, Schema.rows, List.map_cons, List.map_nil]
    refine Rows.store (fun v => TableFields.mk v none none none none none none)
      (fun v _ => accepts_store.mpr ⟨v, accepts_u64.mpr rfl, rfl⟩) ?_
    refine Rows.store (fun deny => TableFields.mk v none none deny none none none)
      (fun rules found => accepts_store.mpr ⟨rules,
        (accepts_decodePhase roomForRules).mpr ⟨rfl, fit.deny rules found⟩, rfl⟩) ?_
    refine Rows.store (fun allow => TableFields.mk v none none deny none none allow)
      (fun rules found => accepts_store.mpr ⟨rules,
        (accepts_decodePhase roomForRules).mpr ⟨rfl, fit.allow rules found⟩, rfl⟩) ?_
    refine Rows.store (fun defer => TableFields.mk v none none deny none defer allow)
      (fun rules found => accepts_store.mpr ⟨rules,
        (accepts_decodePhase roomForRules).mpr ⟨rfl, fit.defer rules found⟩, rfl⟩) ?_
    refine Rows.store (fun prompt => TableFields.mk v none none deny prompt defer allow)
      (fun rules found => accepts_store.mpr ⟨rules,
        (accepts_decodePhase roomForRules).mpr ⟨rfl, fit.prompt rules found⟩, rfl⟩) ?_
    refine Rows.store (fun version => TableFields.mk v version none deny prompt defer allow)
      (fun version _ => accepts_store.mpr ⟨version, accepts_u64.mpr rfl, rfl⟩) ?_
    refine Rows.store
      (fun classifier => TableFields.mk v version classifier deny prompt defer allow)
      (fun classifier found => accepts_store.mpr ⟨classifier,
        (accepts_decodeClassifier roomForClassifier).mpr
          ⟨rfl, fit.classifier classifier found⟩, rfl⟩) ?_
    exact .nil

end TableFields

def Table.fields (table : Table) : TableFields :=
  ⟨tableVersion, table.version, table.classifier, table.rules.deny, table.rules.prompt,
    table.rules.defer, table.rules.allow⟩

/-- The limits `decode` sets a table. -/
structure Table.WithinLimits (table : Table) : Prop where
  deny : PhaseWithinLimits table.rules.deny
  prompt : PhaseWithinLimits table.rules.prompt
  defer : PhaseWithinLimits table.rules.defer
  allow : PhaseWithinLimits table.rules.allow
  classifier : table.classifier.WithinLimits

instance (table : Table) : Decidable table.WithinLimits :=
  decidable_of_iff (PhaseWithinLimits table.rules.deny ∧
    PhaseWithinLimits table.rules.prompt ∧ PhaseWithinLimits table.rules.defer ∧
    PhaseWithinLimits table.rules.allow ∧ table.classifier.WithinLimits)
    ⟨fun limits => ⟨limits.1, limits.2.1, limits.2.2.1, limits.2.2.2.1, limits.2.2.2.2⟩,
      fun limits => ⟨limits.deny, limits.prompt, limits.defer, limits.allow,
        limits.classifier⟩⟩

theorem Table.encode_eq (table : Table) :
    table.encode = mapBytes (presentRows (TableFields.schema.rows table.fields)) := by
  simp only [Table.encode, MapBuilder.new_eq_ofRows, MapBuilder.insert_ofRows,
    List.nil_append, List.cons_append]
  exact Schema.finish TableFields.schema_ascend
    ((List.perm_append_singleton _ _).symm.cons _)

theorem table_eq_ok {fields : TableFields} {table : Table} :
    fields.table = .ok table ↔ fields = table.fields := by
  constructor
  · intro success
    unfold TableFields.table at success
    split at success
    · cases success
    rename_i current
    rcases ok_of_bind_ok success with ⟨deny, hasDeny, success⟩
    rcases ok_of_bind_ok success with ⟨prompt, hasPrompt, success⟩
    rcases ok_of_bind_ok success with ⟨defer, hasDefer, success⟩
    rcases ok_of_bind_ok success with ⟨allow, hasAllow, success⟩
    rcases ok_of_bind_ok success with ⟨version, hasVersion, success⟩
    rcases ok_of_bind_ok success with ⟨classifier, hasClassifier, success⟩
    cases success
    rw [need_eq_ok] at hasDeny hasPrompt hasDefer hasAllow hasVersion hasClassifier
    rw [Table.fields, ← hasDeny, ← hasPrompt, ← hasDefer, ← hasAllow, ← hasVersion,
      ← hasClassifier, ← not_not.mp current]
  · rintro rfl
    rfl

theorem Table.decode_eq_ok {buf : Bytes} {table : Table} :
    Table.decode buf = .ok table ↔ buf = table.encode ∧ table.WithinLimits := by
  have accepts : ∀ fields, decodeAll (readMap .new TableFields.read) buf = .ok fields ↔
      buf = mapBytes (presentRows (TableFields.schema.rows fields)) ∧ fields.Fit := by
    intro fields
    rw [decodeAll_eq_ok, TableFields.accepts_fields,
      and_iff_right (show 0 < maxMapDepth by decide)]
  constructor
  · intro success
    rcases ok_of_bind_ok success with ⟨fields, read, built⟩
    obtain rfl := table_eq_ok.mp built
    rcases (accepts _).mp read with ⟨rfl, fit⟩
    exact ⟨table.encode_eq.symm, fit.deny _ rfl, fit.prompt _ rfl, fit.defer _ rfl,
      fit.allow _ rfl, fit.classifier _ rfl⟩
  · rintro ⟨rfl, limits⟩
    have fit : table.fields.Fit := by
      rcases limits with ⟨deny, prompt, defer, allow, classifier⟩
      constructor <;> simpa [Table.fields]
    have read := (accepts _).mpr ⟨table.encode_eq, fit⟩
    rw [Table.decode, read]
    exact table_eq_ok.mpr rfl

/-- A table within the limits survives the wire and decides every request as it
did; bytes the decoder takes are the bytes its table encodes to. -/
theorem table_codec_exact :
    (∀ table : Table, table.WithinLimits →
      ∃ decoded, Table.decode table.encode = .ok decoded ∧ decoded = table ∧
        ∀ ctx, check decoded ctx = check table ctx) ∧
    ∀ (buf : Bytes) (table : Table), Table.decode buf = .ok table → table.encode = buf := by
  constructor
  · intro table limits
    exact ⟨table, Table.decode_eq_ok.mpr ⟨rfl, limits⟩, rfl, fun ctx => rfl⟩
  · intro buf table decoded
    exact (Table.decode_eq_ok.mp decoded).1.symm

end Codec

section Sample

local instance : RegexEngine := wordEngine

/-- A table with a rule in two phases and a classifier of each kind. -/
def sampleTable : Table where
  version := 7
  rules := {
    deny := [⟨"no-secret-capture", [.capability [.new "capture.*"], .targetClass [.secret]],
      [⟨"capture.secret", true⟩]⟩]
    prompt := [⟨"vision", [.nodeSource ["vision"], .nodeConfidenceLt ⟨900, by decide⟩,
      .title ⟨"Inbox", by decide⟩], []⟩]
    defer := [⟨"blind", [.provenanceAbsent], []⟩]
    allow := [⟨"default-allow", [.capability [.new "*"], .principal [.new "agent:*"]], []⟩] }
  classifier := {
    default := .«private»
    classify := [⟨.secret, [.appId [.new "bitwarden"], .xwayland false]⟩]
    trust := [⟨.trusted, [.output [.new "eDP-*"]]⟩] }

theorem sampleTable_withinLimits : sampleTable.WithinLimits := by
  decide

theorem table_codec_exact_sample :
    (∃ decoded, Table.decode sampleTable.encode = .ok decoded ∧ decoded = sampleTable ∧
        ∀ ctx, check decoded ctx = check sampleTable ctx) ∧
      ∃ buf, Table.decode buf = .ok sampleTable ∧ sampleTable.encode = buf := by
  have kept := table_codec_exact.1 sampleTable sampleTable_withinLimits
  rcases kept with ⟨decoded, success, rfl, same⟩
  exact ⟨⟨_, success, rfl, same⟩, _, success, table_codec_exact.2 _ _ success⟩

end Sample

end EclipseOS.PolicyEval
