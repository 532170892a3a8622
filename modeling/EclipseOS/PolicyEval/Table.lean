import EclipseOS.PolicyEval.Check

/-! # The enforcement table's wire form

Canonical CBOR. The decoder refuses unknown predicates, unknown fields and
trailing bytes. Regexes and globs travel as source text and are rebuilt on
decode. -/

namespace EclipseOS.PolicyEval

open Foundation Cbor

/-- The table carries the classifier as well as the rules. -/
def tableVersion : UInt64 := 2

def maxRules : Nat := 4096

def maxItems : Nat := 256

inductive TableError where
  | cbor (error : Cbor.Error)
  | shape
  | regex
  | badSignature
  deriving DecidableEq

instance : FromCbor TableError := ⟨.cbor⟩

def classStr : Class → String
  | .«public» => "public"
  | .«private» => "private"
  | .secret => "secret"

def classOf (text : String) : Option Class :=
  match text with
  | "public" => some .«public»
  | "private" => some .«private»
  | "secret" => some .secret
  | _ => none

def trustStr : Trust → String
  | .untrusted => "untrusted"
  | .standard => "standard"
  | .trusted => "trusted"
  | .human => "human"

def trustOf (text : String) : Option Trust :=
  match text with
  | "untrusted" => some .untrusted
  | "standard" => some .standard
  | "trusted" => some .trusted
  | "human" => some .human
  | _ => none

/-! ## Encoding -/

def texts (items : List String) : Bytes := arrayOf Writer.text items

section Encode

variable [RegexEngine]

def Pred.entry : Pred → String × Option (String × Bytes)
  | .capability globs => ("capability", some ("a", texts (globs.map Glob.asStr)))
  | .targetClass classes => ("target_class", some ("a", texts (classes.map classStr)))
  | .targetAppId globs => ("target_app_id", some ("a", texts (globs.map Glob.asStr)))
  | .title regex => ("title", some ("re", Writer.text regex.asStr))
  | .nodeRole roles => ("node_role", some ("a", texts roles))
  | .nodeName regex => ("node_name", some ("re", Writer.text regex.asStr))
  | .nodeSource sources => ("node_source", some ("a", texts sources))
  | .nodeConfidenceLt rate =>
    ("node_confidence_lt", some ("milli", Writer.u64 (UInt64.ofNat rate.milli)))
  | .irreversible globs => ("irreversible", some ("a", texts (globs.map Glob.asStr)))
  | .url globs => ("url", some ("a", texts (globs.map Glob.asStr)))
  | .principal globs => ("principal", some ("a", texts (globs.map Glob.asStr)))
  | .principalProfile profiles => ("principal_profile", some ("a", texts profiles))
  | .appTrust trusts => ("app_trust", some ("a", texts (trusts.map trustStr)))
  | .appIrreversibleCapable value =>
    ("app_irreversible_capable", some ("b", Writer.bool value))
  | .provenanceContainsTrust trust =>
    ("provenance_contains_trust", some ("a", texts [trustStr trust]))
  | .provenanceContainsSource source =>
    ("provenance_contains_source", some ("a", texts [source]))
  | .provenanceAbsent => ("provenance_absent", none)

def encodePred (pred : Pred) : Bytes :=
  let (name, value) := pred.entry
  let builder := MapBuilder.new.insert "p" (Writer.text name)
  match value with
  | some (key, bytes) => (builder.insert key bytes).finish
  | none => builder.finish

def encodeUnless (clause : Unless) : Bytes :=
  MapBuilder.new
    |>.insert "capability" (Writer.text clause.capability)
    |>.insert "unattended" (Writer.bool clause.unattended)
    |>.finish

def encodeRule (rule : CompiledRule) : Bytes :=
  MapBuilder.new
    |>.insert "id" (Writer.text rule.id)
    |>.insert "preds" (arrayOf encodePred rule.preds)
    |>.insert "unless" (arrayOf encodeUnless rule.«unless»)
    |>.finish

def encodePhase (rules : List CompiledRule) : Bytes := arrayOf encodeRule rules

def Matcher.entry : Matcher → String × String × Bytes
  | .appId globs => ("app_id", "a", texts (globs.map Glob.asStr))
  | .title regex => ("title", "re", Writer.text regex.asStr)
  | .url globs => ("url", "a", texts (globs.map Glob.asStr))
  | .output globs => ("output", "a", texts (globs.map Glob.asStr))
  | .launchedBy globs => ("launched_by", "a", texts (globs.map Glob.asStr))
  | .xwayland value => ("xwayland", "b", Writer.bool value)

def encodeMatcher (matcher : Matcher) : Bytes :=
  let (name, key, bytes) := matcher.entry
  MapBuilder.new
    |>.insert "p" (Writer.text name)
    |>.insert key bytes
    |>.finish

def encodeMatchers (matchers : List Matcher) : Bytes := arrayOf encodeMatcher matchers

def encodeTrustRule (rule : TrustRule) : Bytes :=
  MapBuilder.new
    |>.insert "trust" (Writer.text (trustStr rule.trust))
    |>.insert "matchers" (encodeMatchers rule.matchers)
    |>.finish

def encodeClassifyRule (rule : ClassifyRule) : Bytes :=
  MapBuilder.new
    |>.insert "class" (Writer.text (classStr rule.class))
    |>.insert "matchers" (encodeMatchers rule.matchers)
    |>.finish

def encodeClassifier (classifier : Classifier) : Bytes :=
  MapBuilder.new
    |>.insert "trust" (arrayOf encodeTrustRule classifier.trust)
    |>.insert "default" (Writer.text (classStr classifier.default))
    |>.insert "classify" (arrayOf encodeClassifyRule classifier.classify)
    |>.finish

/-- The table's canonical bytes: what is signed and what is pushed. -/
def Table.encode (table : Table) : Bytes :=
  MapBuilder.new
    |>.insert "v" (Writer.u64 tableVersion)
    |>.insert "classifier" (encodeClassifier table.classifier)
    |>.insert "deny" (encodePhase table.rules.deny)
    |>.insert "allow" (encodePhase table.rules.allow)
    |>.insert "defer" (encodePhase table.rules.defer)
    |>.insert "prompt" (encodePhase table.rules.prompt)
    |>.insert "version" (Writer.u64 table.version)
    |>.finish

end Encode

/-! ## Decoding -/

/-- `value.ok_or(TableError::Shape)?`. -/
def need {α : Type} : Option α → Except TableError α
  | some value => .ok value
  | none => .error .shape

/-- An array of between `least` and `most` items. -/
def arrayWithin {α : Type} (least most : Nat) (item : Read TableError α) :
    Read TableError (List α) := do
  let n ← arrayLen
  if n < least ∨ most < n then
    throw .shape
  else
    collect n item

def readTexts : Read TableError (List String) := arrayWithin 1 maxItems text

/-- `named(r.text()?).ok_or(TableError::Shape)?`. -/
def readNamed {α : Type} (named : String → Option α) : Read TableError α := do
  okOr (named (← text)) .shape

def one {α : Type} : List α → Except TableError α
  | [value] => .ok value
  | _ => .error .shape

def needGlobs (items : Option (List String)) : Except TableError (List Glob) := do
  return (← need items).map Glob.new

def needRegex [RegexEngine] (source : Option String) : Except TableError Regex := do
  match Regex.build (← need source) with
  | some regex => return regex
  | none => throw .regex

/-- The fields `decode_pred` has seen. -/
structure PredFields where
  name : Option String
  a : Option (List String)
  re : Option String
  b : Option Bool
  milli : Option UInt64
  deriving DecidableEq

namespace PredFields

def new : PredFields := ⟨none, none, none, none, none⟩

def read (key : String) (fields : PredFields) : Read TableError PredFields :=
  match key with
  | "a" => do return { fields with a := some (← readTexts) }
  | "b" => do return { fields with b := some (← bool) }
  | "p" => do return { fields with name := some (← text) }
  | "re" => do return { fields with re := some (← text) }
  | "milli" => do return { fields with milli := some (← u64) }
  | _ => throw .shape

def count (fields : PredFields) : Nat :=
  [fields.a.isSome, fields.b.isSome, fields.re.isSome, fields.milli.isSome].count true

variable [RegexEngine]

def rate (fields : PredFields) : Except TableError Rate := do
  let milli ← need fields.milli
  if atMostOne : milli.toNat ≤ 1000 then
    return ⟨milli.toNat, atMostOne⟩
  else
    throw .shape

/-- The predicate a name asks for, from the fields it needs. -/
def named (fields : PredFields) (name : String) : Except TableError Pred :=
  match name with
  | "capability" => .capability <$> needGlobs fields.a
  | "target_class" => do
    return .targetClass (← (← need fields.a).mapM fun text => need (classOf text))
  | "target_app_id" => .targetAppId <$> needGlobs fields.a
  | "title" => .title <$> needRegex fields.re
  | "node_role" => .nodeRole <$> need fields.a
  | "node_name" => .nodeName <$> needRegex fields.re
  | "node_source" => .nodeSource <$> need fields.a
  | "node_confidence_lt" => .nodeConfidenceLt <$> fields.rate
  | "irreversible" => .irreversible <$> needGlobs fields.a
  | "url" => .url <$> needGlobs fields.a
  | "principal" => .principal <$> needGlobs fields.a
  | "principal_profile" => .principalProfile <$> need fields.a
  | "app_trust" => do
    return .appTrust (← (← need fields.a).mapM fun text => need (trustOf text))
  | "app_irreversible_capable" => .appIrreversibleCapable <$> need fields.b
  | "provenance_contains_trust" => do
    return .provenanceContainsTrust (← need (trustOf (← one (← need fields.a))))
  | "provenance_contains_source" => do
    return .provenanceContainsSource (← one (← need fields.a))
  | "provenance_absent" =>
    if fields.count ≠ 0 then throw .shape else return .provenanceAbsent
  | _ => throw .shape

def pred (fields : PredFields) : Except TableError Pred := do
  let pred ← fields.named (← need fields.name)
  -- Exactly one value field for every predicate but `provenance_absent`.
  if pred ≠ .provenanceAbsent ∧ fields.count ≠ 1 then
    throw .shape
  else
    return pred

end PredFields

section Decode

variable [RegexEngine]

def decodePred : Read TableError Pred := do
  let fields ← readMap .new PredFields.read
  orThrow fields.pred

structure UnlessFields where
  capability : Option String
  unattended : Option Bool
  deriving DecidableEq

namespace UnlessFields

def read (key : String) (fields : UnlessFields) : Read TableError UnlessFields :=
  match key with
  | "capability" => do return { fields with capability := some (← text) }
  | "unattended" => do return { fields with unattended := some (← bool) }
  | _ => throw .shape

def clause (fields : UnlessFields) : Except TableError Unless := do
  return ⟨← need fields.capability, ← need fields.unattended⟩

end UnlessFields

def decodeUnless : Read TableError Unless := do
  let fields ← readMap ⟨none, none⟩ UnlessFields.read
  orThrow fields.clause

structure RuleFields where
  id : Option String
  preds : Option (List Pred)
  «unless» : Option (List Unless)
  deriving DecidableEq

namespace RuleFields

def read (key : String) (fields : RuleFields) : Read TableError RuleFields :=
  match key with
  | "id" => do return { fields with id := some (← text) }
  | "preds" => do return { fields with preds := some (← arrayWithin 0 maxItems decodePred) }
  | "unless" => do
    return { fields with «unless» := some (← arrayWithin 0 maxItems decodeUnless) }
  | _ => throw .shape

def rule (fields : RuleFields) : Except TableError CompiledRule := do
  let id ← need fields.id
  if id = "" then
    throw .shape
  else
    return ⟨id, ← need fields.preds, ← need fields.«unless»⟩

end RuleFields

def decodeRule : Read TableError CompiledRule := do
  let fields ← readMap ⟨none, none, none⟩ RuleFields.read
  orThrow fields.rule

def decodePhase : Read TableError (List CompiledRule) := arrayWithin 0 maxRules decodeRule

structure MatcherFields where
  name : Option String
  a : Option (List String)
  re : Option String
  b : Option Bool
  deriving DecidableEq

namespace MatcherFields

def read (key : String) (fields : MatcherFields) : Read TableError MatcherFields :=
  match key with
  | "a" => do return { fields with a := some (← readTexts) }
  | "b" => do return { fields with b := some (← bool) }
  | "p" => do return { fields with name := some (← text) }
  | "re" => do return { fields with re := some (← text) }
  | _ => throw .shape

/-- The matcher a name asks for, from the field it needs. -/
def named (fields : MatcherFields) (name : String) : Except TableError Matcher :=
  match name with
  | "app_id" => .appId <$> needGlobs fields.a
  | "title" => .title <$> needRegex fields.re
  | "url" => .url <$> needGlobs fields.a
  | "output" => .output <$> needGlobs fields.a
  | "launched_by" => .launchedBy <$> needGlobs fields.a
  | "xwayland" => .xwayland <$> need fields.b
  | _ => throw .shape

def matcher (fields : MatcherFields) : Except TableError Matcher := do
  if [fields.a.isSome, fields.b.isSome, fields.re.isSome].count true ≠ 1 then
    throw .shape
  else
    fields.named (← need fields.name)

end MatcherFields

def decodeMatcher : Read TableError Matcher := do
  let fields ← readMap ⟨none, none, none, none⟩ MatcherFields.read
  orThrow fields.matcher

def decodeMatchers : Read TableError (List Matcher) := arrayWithin 1 maxItems decodeMatcher

structure TrustRuleFields where
  trust : Option Trust
  matchers : Option (List Matcher)
  deriving DecidableEq

namespace TrustRuleFields

def read (key : String) (fields : TrustRuleFields) : Read TableError TrustRuleFields :=
  match key with
  | "trust" => do return { fields with trust := some (← readNamed trustOf) }
  | "matchers" => do return { fields with matchers := some (← decodeMatchers) }
  | _ => throw .shape

def rule (fields : TrustRuleFields) : Except TableError TrustRule := do
  let trust ← need fields.trust
  -- A rule cannot hand out `human`: that is the human seat's alone.
  if trust = .human then
    throw .shape
  else
    return ⟨trust, ← need fields.matchers⟩

end TrustRuleFields

def decodeTrustRule : Read TableError TrustRule := do
  let fields ← readMap ⟨none, none⟩ TrustRuleFields.read
  orThrow fields.rule

structure ClassifyRuleFields where
  «class» : Option Class
  matchers : Option (List Matcher)
  deriving DecidableEq

namespace ClassifyRuleFields

def read (key : String) (fields : ClassifyRuleFields) :
    Read TableError ClassifyRuleFields :=
  match key with
  | "class" => do return { fields with «class» := some (← readNamed classOf) }
  | "matchers" => do return { fields with matchers := some (← decodeMatchers) }
  | _ => throw .shape

def rule (fields : ClassifyRuleFields) : Except TableError ClassifyRule := do
  return ⟨← need fields.class, ← need fields.matchers⟩

end ClassifyRuleFields

def decodeClassifyRule : Read TableError ClassifyRule := do
  let fields ← readMap ⟨none, none⟩ ClassifyRuleFields.read
  orThrow fields.rule

structure ClassifierFields where
  default : Option Class
  classify : Option (List ClassifyRule)
  trust : Option (List TrustRule)
  deriving DecidableEq

/-- Only a `classify "public"` match can make a target public. -/
def defaultClass (text : String) : Option Class :=
  (classOf text).filter (· ≠ .«public»)

namespace ClassifierFields

def read (key : String) (fields : ClassifierFields) : Read TableError ClassifierFields :=
  match key with
  | "trust" => do
    return { fields with trust := some (← arrayWithin 0 maxRules decodeTrustRule) }
  | "default" => do return { fields with default := some (← readNamed defaultClass) }
  | "classify" => do
    return { fields with classify := some (← arrayWithin 0 maxRules decodeClassifyRule) }
  | _ => throw .shape

def classifier (fields : ClassifierFields) : Except TableError Classifier := do
  return ⟨← need fields.default, ← need fields.classify, ← need fields.trust⟩

end ClassifierFields

def decodeClassifier : Read TableError Classifier := do
  let fields ← readMap ⟨none, none, none⟩ ClassifierFields.read
  orThrow fields.classifier

/-- The fields `decode` has seen. A phase that was read is `some`. -/
structure TableFields where
  v : Option UInt64
  version : Option UInt64
  classifier : Option Classifier
  deny : Option (List CompiledRule)
  prompt : Option (List CompiledRule)
  defer : Option (List CompiledRule)
  allow : Option (List CompiledRule)
  deriving DecidableEq

namespace TableFields

def new : TableFields := ⟨none, none, none, none, none, none, none⟩

def read (key : String) (fields : TableFields) : Read TableError TableFields :=
  match key with
  | "v" => do return { fields with v := some (← u64) }
  | "deny" => do return { fields with deny := some (← decodePhase) }
  | "allow" => do return { fields with allow := some (← decodePhase) }
  | "defer" => do return { fields with defer := some (← decodePhase) }
  | "prompt" => do return { fields with prompt := some (← decodePhase) }
  | "version" => do return { fields with version := some (← u64) }
  | "classifier" => do return { fields with classifier := some (← decodeClassifier) }
  | _ => throw .shape

def table (fields : TableFields) : Except TableError Table := do
  if fields.v ≠ some tableVersion then
    throw .shape
  else
    let rules : Phases := ⟨← need fields.deny, ← need fields.prompt, ← need fields.defer,
      ← need fields.allow⟩
    return ⟨← need fields.version, rules, ← need fields.classifier⟩

end TableFields

def Table.decode (buf : Bytes) : Except TableError Table := do
  (← decodeAll (readMap .new TableFields.read) buf).table

end Decode

end EclipseOS.PolicyEval
