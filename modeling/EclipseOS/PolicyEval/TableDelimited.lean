import EclipseOS.PolicyEval.Cbor.Delimited
import EclipseOS.PolicyEval.TableCodec

/-! # No two tables share their bytes

Every encoder of the table writes an item and loses nothing, limits or no
limits. -/

namespace EclipseOS.PolicyEval

open Foundation Cbor

variable {depth : Nat}

theorem arrayOf_delimited {α : Type} {encode : α → Bytes}
    (delimited : Delimited depth encode) : Delimited depth (arrayOf encode) :=
  delimited.array

theorem texts_delimited : Delimited depth texts := Delimited.text.array

theorem classStr_injective : Function.Injective classStr := by
  intro left right same
  have parsed := classOf_eq_some.mpr same
  rw [classOf_eq_some.mpr rfl] at parsed
  exact Option.some.inj parsed

theorem trustStr_injective : Function.Injective trustStr := by
  intro left right same
  have parsed := trustOf_eq_some.mpr same
  rw [trustOf_eq_some.mpr rfl] at parsed
  exact Option.some.inj parsed

theorem PredFields.delimited (room : depth < maxMapDepth) :
    Delimited depth fun fields => mapBytes (presentRows (schema.rows fields)) := by
  have listed : Delimited (depth + 1) texts := texts_delimited
  have worded : Delimited (depth + 1) Writer.text := Delimited.text
  have flagged : Delimited (depth + 1) Writer.bool := Delimited.bool
  have counted : Delimited (depth + 1) Writer.u64 := Delimited.u64
  refine .record schema_ascend (by decide) room ?_ ?_
  · intro fields
    simp only [schema, List.forall_mem_cons]
    exact ⟨listed.option_item, flagged.option_item, worded.option_item, worded.option_item,
      counted.option_item, by simp⟩
  · rintro ⟨name, a, re, b, milli⟩ ⟨name', a', re', b', milli'⟩
    simp only [schema, List.forall_mem_cons]
    rintro ⟨shortA, shortB, shortName, shortRe, shortMilli, -⟩
      ⟨sameA, sameB, sameName, sameRe, sameMilli, -⟩
    rw [listed.option_inj shortA sameA, flagged.option_inj shortB sameB,
      worded.option_inj shortName sameName, worded.option_inj shortRe sameRe,
      counted.option_inj shortMilli sameMilli]

theorem UnlessFields.delimited (room : depth < maxMapDepth) :
    Delimited depth fun fields => mapBytes (presentRows (schema.rows fields)) := by
  have worded : Delimited (depth + 1) Writer.text := Delimited.text
  have flagged : Delimited (depth + 1) Writer.bool := Delimited.bool
  refine .record schema_ascend (by decide) room ?_ ?_
  · intro fields
    simp only [schema, List.forall_mem_cons]
    exact ⟨worded.option_item, flagged.option_item, by simp⟩
  · rintro ⟨capability, unattended⟩ ⟨capability', unattended'⟩
    simp only [schema, List.forall_mem_cons]
    rintro ⟨shortCapability, shortUnattended, -⟩ ⟨sameCapability, sameUnattended, -⟩
    rw [worded.option_inj shortCapability sameCapability,
      flagged.option_inj shortUnattended sameUnattended]

theorem MatcherFields.delimited (room : depth < maxMapDepth) :
    Delimited depth fun fields => mapBytes (presentRows (schema.rows fields)) := by
  have listed : Delimited (depth + 1) texts := texts_delimited
  have worded : Delimited (depth + 1) Writer.text := Delimited.text
  have flagged : Delimited (depth + 1) Writer.bool := Delimited.bool
  refine .record schema_ascend (by decide) room ?_ ?_
  · intro fields
    simp only [schema, List.forall_mem_cons]
    exact ⟨listed.option_item, flagged.option_item, worded.option_item, worded.option_item,
      by simp⟩
  · rintro ⟨name, a, re, b⟩ ⟨name', a', re', b'⟩
    simp only [schema, List.forall_mem_cons]
    rintro ⟨shortA, shortB, shortName, shortRe, -⟩ ⟨sameA, sameB, sameName, sameRe, -⟩
    rw [listed.option_inj shortA sameA, flagged.option_inj shortB sameB,
      worded.option_inj shortName sameName, worded.option_inj shortRe sameRe]

section Encoders

variable [RegexEngine]

theorem Pred.fields_injective : Function.Injective Pred.fields := by
  intro left right same
  have built := pred_eq_ok.mpr same
  rw [pred_eq_ok.mpr rfl] at built
  exact Except.ok.inj built

theorem encodePred_delimited (room : depth < maxMapDepth) :
    Delimited depth (encodePred : Pred → Bytes) := by
  rw [funext encodePred_eq]
  exact (PredFields.delimited room).comp Pred.fields_injective

omit [RegexEngine] in
theorem encodeUnless_delimited (room : depth < maxMapDepth) :
    Delimited depth encodeUnless := by
  rw [funext encodeUnless_eq]
  refine (UnlessFields.delimited room).comp ?_
  rintro ⟨capability, unattended⟩ ⟨capability', unattended'⟩ same
  cases same
  rfl

theorem encodeRule_delimited (room : depth + 1 < maxMapDepth) :
    Delimited depth (encodeRule : CompiledRule → Bytes) := by
  have worded : Delimited (depth + 1) Writer.text := Delimited.text
  have preds := arrayOf_delimited (encodePred_delimited room)
  have clauses := arrayOf_delimited (encodeUnless_delimited room)
  rw [funext encodeRule_eq]
  refine (Delimited.record RuleFields.schema_ascend ?_ (Nat.lt_of_succ_lt room) ?_ ?_).comp ?_
  · show NamesFit ["id", "preds", "unless"]
    decide
  · intro fields
    simp only [RuleFields.schema, List.forall_mem_cons]
    exact ⟨worded.option_item, preds.option_item, clauses.option_item, by simp⟩
  · rintro ⟨id, preds', clauses'⟩ ⟨id', preds'', clauses''⟩
    simp only [RuleFields.schema, List.forall_mem_cons]
    rintro ⟨shortId, shortPreds, shortUnless, -⟩ ⟨sameId, samePreds, sameUnless, -⟩
    rw [worded.option_inj shortId sameId, preds.option_inj shortPreds samePreds,
      clauses.option_inj shortUnless sameUnless]
  · rintro ⟨id, preds', clauses'⟩ ⟨id', preds'', clauses''⟩ same
    cases same
    rfl

theorem Matcher.fields_injective : Function.Injective Matcher.fields := by
  intro left right same
  have built := (matcher_eq_ok _ _).mpr same
  rw [(matcher_eq_ok _ _).mpr rfl] at built
  exact Except.ok.inj built

theorem encodeMatchers_delimited (room : depth < maxMapDepth) :
    Delimited depth (encodeMatchers : List Matcher → Bytes) := by
  have one : Delimited depth (encodeMatcher : Matcher → Bytes) := by
    rw [funext encodeMatcher_eq]
    exact (MatcherFields.delimited room).comp Matcher.fields_injective
  exact arrayOf_delimited one

theorem encodeTrustRule_delimited (room : depth + 1 < maxMapDepth) :
    Delimited depth (encodeTrustRule : TrustRule → Bytes) := by
  have trusts : Delimited (depth + 1) fun trust => Writer.text (trustStr trust) :=
    Delimited.text.comp trustStr_injective
  have matchers := encodeMatchers_delimited room
  rw [funext encodeTrustRule_eq]
  refine (Delimited.record TrustRuleFields.schema_ascend ?_ (Nat.lt_of_succ_lt room)
    ?_ ?_).comp ?_
  · show NamesFit ["trust", "matchers"]
    decide
  · intro fields
    simp only [TrustRuleFields.schema, List.forall_mem_cons]
    exact ⟨trusts.option_item, matchers.option_item, by simp⟩
  · rintro ⟨trust, matchers'⟩ ⟨trust', matchers''⟩
    simp only [TrustRuleFields.schema, List.forall_mem_cons]
    rintro ⟨shortTrust, shortMatchers, -⟩ ⟨sameTrust, sameMatchers, -⟩
    rw [trusts.option_inj shortTrust sameTrust,
      matchers.option_inj shortMatchers sameMatchers]
  · rintro ⟨trust, matchers'⟩ ⟨trust', matchers''⟩ same
    cases same
    rfl

theorem encodeClassifyRule_delimited (room : depth + 1 < maxMapDepth) :
    Delimited depth (encodeClassifyRule : ClassifyRule → Bytes) := by
  have classes : Delimited (depth + 1) fun found => Writer.text (classStr found) :=
    Delimited.text.comp classStr_injective
  have matchers := encodeMatchers_delimited room
  rw [funext encodeClassifyRule_eq]
  refine (Delimited.record ClassifyRuleFields.schema_ascend ?_ (Nat.lt_of_succ_lt room)
    ?_ ?_).comp ?_
  · show NamesFit ["class", "matchers"]
    decide
  · intro fields
    simp only [ClassifyRuleFields.schema, List.forall_mem_cons]
    exact ⟨classes.option_item, matchers.option_item, by simp⟩
  · rintro ⟨found, matchers'⟩ ⟨found', matchers''⟩
    simp only [ClassifyRuleFields.schema, List.forall_mem_cons]
    rintro ⟨shortClass, shortMatchers, -⟩ ⟨sameClass, sameMatchers, -⟩
    rw [classes.option_inj shortClass sameClass,
      matchers.option_inj shortMatchers sameMatchers]
  · rintro ⟨found, matchers'⟩ ⟨found', matchers''⟩ same
    cases same
    rfl

theorem encodeClassifier_delimited (room : depth + 2 < maxMapDepth) :
    Delimited depth (encodeClassifier : Classifier → Bytes) := by
  have classes : Delimited (depth + 1) fun found => Writer.text (classStr found) :=
    Delimited.text.comp classStr_injective
  have trusts := arrayOf_delimited (encodeTrustRule_delimited room)
  have classifies := arrayOf_delimited (encodeClassifyRule_delimited room)
  rw [funext encodeClassifier_eq]
  refine (Delimited.record ClassifierFields.schema_ascend ?_ (by omega) ?_ ?_).comp ?_
  · show NamesFit ["trust", "default", "classify"]
    decide
  · intro fields
    simp only [ClassifierFields.schema, List.forall_mem_cons]
    exact ⟨trusts.option_item, classes.option_item, classifies.option_item, by simp⟩
  · rintro ⟨default, classify, trust⟩ ⟨default', classify', trust'⟩
    simp only [ClassifierFields.schema, List.forall_mem_cons]
    rintro ⟨shortTrust, shortDefault, shortClassify, -⟩
      ⟨sameTrust, sameDefault, sameClassify, -⟩
    rw [trusts.option_inj shortTrust sameTrust, classes.option_inj shortDefault sameDefault,
      classifies.option_inj shortClassify sameClassify]
  · rintro ⟨default, classify, trust⟩ ⟨default', classify', trust'⟩ same
    cases same
    rfl

theorem Table.encode_delimited : Delimited 0 (Table.encode : Table → Bytes) := by
  have numbers : Delimited 1 Writer.u64 := Delimited.u64
  have phases : Delimited 1 (encodePhase : List CompiledRule → Bytes) :=
    arrayOf_delimited (encodeRule_delimited (by decide))
  have classifiers : Delimited 1 (encodeClassifier : Classifier → Bytes) :=
    encodeClassifier_delimited (by decide)
  rw [funext Table.encode_eq]
  refine (Delimited.record TableFields.schema_ascend ?_ (by decide) ?_ ?_).comp ?_
  · show NamesFit ["v", "deny", "allow", "defer", "prompt", "version", "classifier"]
    decide
  · intro fields
    simp only [TableFields.schema, List.forall_mem_cons]
    exact ⟨numbers.option_item, phases.option_item, phases.option_item, phases.option_item,
      phases.option_item, numbers.option_item, classifiers.option_item, by simp⟩
  · rintro ⟨v, version, classifier, deny, prompt, defer, allow⟩
      ⟨v', version', classifier', deny', prompt', defer', allow'⟩
    simp only [TableFields.schema, List.forall_mem_cons]
    rintro ⟨shortV, shortDeny, shortAllow, shortDefer, shortPrompt, shortVersion,
        shortClassifier, -⟩
      ⟨sameV, sameDeny, sameAllow, sameDefer, samePrompt, sameVersion, sameClassifier, -⟩
    rw [numbers.option_inj shortV sameV, phases.option_inj shortDeny sameDeny,
      phases.option_inj shortAllow sameAllow, phases.option_inj shortDefer sameDefer,
      phases.option_inj shortPrompt samePrompt, numbers.option_inj shortVersion sameVersion,
      classifiers.option_inj shortClassifier sameClassifier]
  · rintro ⟨version, ⟨deny, prompt, defer, allow⟩, classifier⟩
      ⟨version', ⟨deny', prompt', defer', allow'⟩, classifier'⟩ same
    cases same
    rfl

theorem Table.decode_encode_eq_ok {table decoded : Table}
    (short : table.encode.length < 2 ^ 64) :
    Table.decode table.encode = .ok decoded ↔ decoded = table ∧ table.WithinLimits := by
  rw [Table.decode_eq_ok]
  constructor
  · rintro ⟨same, limits⟩
    obtain rfl := Table.encode_delimited.inj _ _ short same
    exact ⟨rfl, limits⟩
  · rintro ⟨rfl, limits⟩
    exact ⟨rfl, limits⟩

end Encoders

end EclipseOS.PolicyEval
